import Terminal.Input.MouseInput

/-!
# Mouse messages through the input engine

In any-event tracking with SGR encoding, every mouse sequence is read back as its message. The
encoder keeps the last position and the wheel, the decoder the buttons down.
-/

namespace Terminal.Input

open Terminal.Parser Terminal.Parser.StateMachine List

/-! ## What a message means -/

namespace MouseButtonState

def after (held : MouseButtonState) : WindowMessage → MouseButtonState
  | .lButtonDown | .lButtonDblClk => { held with isLeftButtonDown := true }
  | .mButtonDown | .mButtonDblClk => { held with isMiddleButtonDown := true }
  | .rButtonDown | .rButtonDblClk => { held with isRightButtonDown := true }
  | .lButtonUp => { held with isLeftButtonDown := false }
  | .mButtonUp => { held with isMiddleButtonDown := false }
  | .rButtonUp => { held with isRightButtonDown := false }
  | _ => held

def flags (held : MouseButtonState) : BitVec 32 :=
  flagIf held.isLeftButtonDown FROM_LEFT_1ST_BUTTON_PRESSED |||
    flagIf held.isMiddleButtonDown FROM_LEFT_2ND_BUTTON_PRESSED |||
    flagIf held.isRightButtonDown RIGHTMOST_BUTTON_PRESSED

end MouseButtonState

def mergedModifiers (modifierKeyState : BitVec 16) : BitVec 32 :=
  flagIf (modifierKeyState &&& SHIFT_BITS != 0) SHIFT_PRESSED |||
    flagIf (modifierKeyState &&& ALT_PRESSED != 0) LEFT_ALT_PRESSED |||
    flagIf (modifierKeyState &&& CTRL_PRESSED != 0) LEFT_CTRL_PRESSED

/-- The record reports the message, which leaves `held` down. -/
structure Reports (event : MouseEvent) (message : MouseMessage) (held : MouseButtonState) : Prop where
  position : event.position = message.position
  buttons : event.buttonState &&& 0xFFFF = held.flags
  modifiers : event.controlKeyState = mergedModifiers message.modifierKeyState
  moved : isAnyFlagSet event.eventFlags MOUSE_MOVED = isHoverMsg message.button
  wheeled : isAnyFlagSet event.eventFlags MOUSE_WHEELED = isWheelMsg message.button
  /-- The high word is the wheel's delta. -/
  wheel : ((event.buttonState >>> 16).setWidth 16).toInt.sign = if isWheelMsg message.button then
    message.delta.sign else 0

/-- A message that can be encoded, at a position for a record. -/
structure Proper (message : MouseMessage) : Prop where
  button : ∀ value, message.button ≠ .other value
  column : 0 ≤ message.position.1 ∧ message.position.1 ≤ 32766
  row : 0 ≤ message.position.2 ∧ message.position.2 ≤ 32766

/-! ## The encoder -/

/-- Any-event tracking in SGR encoding, without cursor keys for the wheel. -/
structure TerminalInput.Tracks (t : TerminalInput) : Prop where
  tracking : t.inputMode .anyEventMouseTracking = true
  encoding : t.inputMode .sgrMouseEncoding = true
  single : t.inputMode .utf8MouseEncoding = false
  scroll : (t.inAlternateBuffer && t.inputMode .alternateScroll) = false

def sgrSequence (message : MouseMessage) : List Wchar :=
  let isHover := isHoverMsg message.button
  let realButton := if isHover then getPressedButton message.state else message.button
  generateSGRSequence message (if realButton ≠ .lButtonUp then realButton else message.button)
    (isButtonDown realButton) isHover

namespace TerminalInput

variable {t : TerminalInput}

theorem deliver_inputMode (message : MouseMessage) : (t.deliver message).2.2.inputMode = t.inputMode := by
  unfold TerminalInput.deliver
  split_ifs <;> rfl

theorem handleMouse_inputMode (message : MouseMessage) : (t.handleMouse message).2.2.inputMode = t.inputMode := by
  have hmatch : (t.matchDelta message.delta).inputMode = t.inputMode := by
    unfold matchDelta
    split <;> rfl
  unfold TerminalInput.handleMouse
  dsimp only
  split_ifs
  · exact hmatch
  · exact (deliver_inputMode message).trans hmatch
  · exact (deliver_inputMode message).trans hmatch

theorem Reachable.encoding (h : Reachable t) :
    (t.inputMode .sgrMouseEncoding && t.inputMode .utf8MouseEncoding) = false := by
  induction h with
  | new => rfl
  | @setInputMode t _ mode enabled ih =>
    cases mode <;> cases enabled <;> simp_all [TerminalInput.setInputMode, isTrackingMode,
      isEncodingMode, forgetMouse, resetModes]
  | resetInputModes => rfl
  | useAlternateScreenBuffer _ ih => exact ih
  | useMainScreenBuffer _ ih => exact ih
  | handleMouse _ message ih =>
    rw [handleMouse_inputMode]
    exact ih

theorem Tracks.deliver (h : t.Tracks) (message : MouseMessage) : (t.deliver message).2.2.Tracks ∧
      ((t.deliver message).2.1 = sgrSequence message ∨
        (t.deliver message).2.1 = [] ∧ isButtonMsg message.button = false) := by
  have hscroll : t.shouldSendAlternateScroll message.button message.delta = false := by
    unfold shouldSendAlternateScroll
    rw [h.scroll, Bool.false_and]
  have htracking : t.isTrackingMouseInput = true := by
    unfold isTrackingMouseInput
    rw [h.tracking, Bool.or_true]
  unfold TerminalInput.deliver
  rw [hscroll, h.tracking, Bool.or_true]
  simp only [Bool.false_eq_true, if_false]
  split
  · refine ⟨{ h with }, Or.inl ?_⟩
    simp only [mouseSequence, h.single, h.encoding]
    rfl
  · next hwants =>
    refine ⟨h, Or.inr ⟨rfl, ?_⟩⟩
    cases hbutton : isButtonMsg message.button with
    | false => rfl
    | true => simp [wantsMessage, hbutton, htracking] at hwants

theorem Tracks.handleMouse (h : t.Tracks) (message : MouseMessage) : (t.handleMouse message).2.2.Tracks ∧
      ((t.handleMouse message).2.1 = sgrSequence message ∧ (isWheelMsg message.button = true → message.delta ≠ 0) ∨
        (t.handleMouse message).2.1 = [] ∧
          (isButtonMsg message.button = false ∨ isWheelMsg message.button = true)) := by
  have hmatch : (t.matchDelta message.delta).Tracks := by
    unfold matchDelta
    split
    · exact { h with }
    · exact h
  -- a message without a delta leaves nothing on the wheel
  have hzero : message.delta = 0 → (t.matchDelta message.delta).accumulatedDelta = 0 := by
    intro hdelta
    unfold matchDelta
    rw [hdelta]
    split
    · rfl
    · next hsign => exact Int.sign_eq_zero_iff_zero.mp (not_not.mp hsign).symm
  unfold TerminalInput.handleMouse
  dsimp only
  split
  · next hwheel =>
    split
    · exact ⟨{ hmatch with }, Or.inr ⟨rfl, Or.inr hwheel⟩⟩
    · next hfar =>
      have hdelta : message.delta ≠ 0 := by
        intro hdelta
        rw [hzero hdelta, hdelta] at hfar
        exact hfar (by decide)
      have hreset : ({ t.matchDelta message.delta with accumulatedDelta := 0 } :
        TerminalInput).Tracks := { hmatch with }
      obtain ⟨hnext, hsent⟩ := hreset.deliver message
      refine ⟨hnext, ?_⟩
      rcases hsent with hsent | ⟨hsent, hbutton⟩
      · exact Or.inl ⟨hsent, fun _ => hdelta⟩
      · exact Or.inr ⟨hsent, Or.inl hbutton⟩
  · next hwheel =>
    obtain ⟨hnext, hsent⟩ := hmatch.deliver message
    refine ⟨hnext, ?_⟩
    rcases hsent with hsent | ⟨hsent, hbutton⟩
    · exact Or.inl ⟨hsent, fun h => absurd h hwheel⟩
    · exact Or.inr ⟨hsent, Or.inl hbutton⟩

end TerminalInput

/-! ## The text -/

def sgrCode (button : WindowMessage) (state : MouseButtonState) (forward : Bool) : BitVec 32 × Bool :=
  match button with
  | .lButtonDown | .lButtonDblClk => (0, true)
  | .lButtonUp => (0, false)
  | .mButtonDown | .mButtonDblClk => (1, true)
  | .mButtonUp => (1, false)
  | .rButtonDown | .rButtonDblClk => (2, true)
  | .rButtonUp => (2, false)
  | .mouseMove =>
    if state.isLeftButtonDown then (0x20, true)
    else if state.isMiddleButtonDown then (0x21, true)
    else if state.isRightButtonDown then (0x22, true)
    else (0x23, false)
  | .mouseWheel | .mouseHWheel => (if forward then 0x40 else 0x41, true)
  | .other _ => (0, false)

def MouseMessage.code (message : MouseMessage) : BitVec 32 × Bool :=
  sgrCode message.button message.state (message.delta > 0)

def sgrCodes : List (BitVec 32) := [0, 1, 2, 0x20, 0x21, 0x22, 0x23, 0x40, 0x41]

theorem MouseMessage.code_mem (message : MouseMessage) : message.code.1 ∈ sgrCodes := by
  unfold MouseMessage.code sgrCode
  split <;> (try split_ifs) <;> decide

def buttonID (sgrEncoding : Nat) : Nat := (sgrEncoding &&& 0x3) ||| ((sgrEncoding &&& 0xC0) >>> 4)

theorem updateFlags_bits : ∀ code ∈ sgrCodes, ∀ shift alt ctrl : Bool,
    let x := updateFlag 0x10 ctrl (updateFlag 0x08 alt (updateFlag 0x04 shift code))
    x.toInt = x.toNat ∧ x.toNat ≤ 65535 ∧ buttonID x.toNat = buttonID code.toNat ∧
      (x.toNat &&& 32) = (code.toNat &&& 32) ∧ sgrMouseModifierState x.toNat =
        flagIf shift SHIFT_PRESSED ||| flagIf alt LEFT_ALT_PRESSED ||| flagIf ctrl LEFT_CTRL_PRESSED := by
  intro code hcode
  simp only [sgrCodes, mem_cons, not_mem_nil, or_false] at hcode
  rcases hcode with rfl | rfl | rfl | rfl | rfl | rfl | rfl | rfl | rfl <;> decide

theorem formatInt_natCast (n : Nat) : formatInt n = formatNat n := by
  unfold formatInt
  rw [if_neg (by omega), Int.toNat_natCast]

variable {x column row : Nat} {message : MouseMessage}

theorem generateSGRSequence_eq (message : MouseMessage) (button : WindowMessage) (isDown isHover : Bool)
    (hx : (windowsButtonToSGREncoding button isHover message.modifierKeyState message.delta).toInt = x)
    (hcolumn : message.position.1 + 1 = column) (hrow : message.position.2 + 1 = row) :
    generateSGRSequence message button isDown isHover =
      csiText [0x3C] [x, column, row] [] (if isDown then 0x4D else 0x6D) := by
  unfold generateSGRSequence csiText
  simp only [hx, hcolumn, hrow, formatInt_natCast, formatParams_cons_cons, formatParams_singleton]
  simp

theorem sgrSequence_eq (hbutton : ∀ value, message.button ≠ .other value)
    (hx : (withModifiers message.modifierKeyState message.code.1).toInt = x)
    (hcolumn : message.position.1 + 1 = column) (hrow : message.position.2 + 1 = row) :
    sgrSequence message = csiText [0x3C] [x, column, row] [] (if message.code.2 then 0x4D else 0x6D) := by
  have hgen := fun button isDown isHover hx =>
    generateSGRSequence_eq message button isDown isHover (x := x) hx hcolumn hrow
  obtain ⟨position, button, modifierKeyState, delta, ⟨left, middle, right⟩⟩ := message
  cases button with
  | mouseMove =>
    cases left <;> cases middle <;> cases right <;> exact hgen _ _ _ hx
  | mouseWheel | mouseHWheel =>
    apply hgen
    unfold MouseMessage.code sgrCode at hx
    simp only [decide_eq_true_eq] at hx
    exact hx
  | other value => exact absurd rfl (hbutton value)
  | _ => exact hgen _ _ _ hx

/-! ## The decoder -/

theorem trackClick_spec (now : Int) (buttonID : Nat) (uiPos : Int × Int) (e : InputEngine) :
    ((e.trackClick now buttonID uiPos).1 = 0 ∨ (e.trackClick now buttonID uiPos).1 = DOUBLE_CLICK) ∧
      (e.trackClick now buttonID uiPos).2.mouseButtonState = e.mouseButtonState := by
  unfold InputEngine.trackClick
  split_ifs
  · exact ⟨Or.inr rfl, rfl⟩
  · exact ⟨Or.inl rfl, rfl⟩
  · exact ⟨Or.inl rfl, rfl⟩

def decoded (sgrEncoding : Nat) (isDown : Bool) (buttons : BitVec 32) : Option (BitVec 32 × BitVec 32) :=
  (InputEngine.buttonFlags (buttonID sgrEncoding)).map fun (flag, wheel, wheeled) =>
    (if isDown then buttons ||| wheel ||| flag else (buttons ||| wheel) &&& ~~~flag,
      wheeled ||| flagIf (sgrEncoding &&& 32 != 0) MOUSE_MOVED)

theorem updateSGRMouseButtonState_spec (now : Int) {isDown : Bool} (uiPos : Int × Int) (e : InputEngine)
    {buttonState eventFlags : BitVec 32} (h : decoded x isDown e.mouseButtonState = some (buttonState, eventFlags)) :
    ∃ click e', (click = 0 ∨ click = DOUBLE_CLICK) ∧
      e.updateSGRMouseButtonState now (if isDown then CsiActionCodes.mouseDown else CsiActionCodes.mouseUp) x uiPos =
        (some (buttonState, eventFlags ||| click), e') ∧ e'.mouseButtonState = buttonState &&& 0xFFFF := by
  obtain ⟨⟨flag, wheel, wheeled⟩, hflags, hstate⟩ := Option.map_eq_some_iff.mp h
  obtain ⟨rfl, rfl⟩ := hstate
  unfold buttonID at hflags
  have hswap (click : BitVec 32) : wheeled ||| click ||| flagIf (x &&& 32 != 0) MOUSE_MOVED =
      wheeled ||| flagIf (x &&& 32 != 0) MOUSE_MOVED ||| click := by
    rw [BitVec.or_assoc, BitVec.or_comm click, ← BitVec.or_assoc]
  unfold InputEngine.updateSGRMouseButtonState
  simp only [hflags]
  cases isDown with
  | true =>
    obtain ⟨hclick, -⟩ := trackClick_spec now ((x &&& 0x3) ||| ((x &&& 0xC0) >>> 4)) uiPos e
    simp only [← hswap]
    exact ⟨_, _, hclick, rfl, rfl⟩
  | false =>
    have hup : CsiActionCodes.mouseUp ≠ CsiActionCodes.mouseDown := by decide
    simp only [Bool.false_eq_true, if_false, if_true, if_neg hup]
    exact ⟨0, { e with mouseButtonState := ((e.mouseButtonState ||| wheel) &&& ~~~flag) &&& 0xFFFF }, Or.inl rfl,
      by simp only [BitVec.ofNat_eq_ofNat, BitVec.or_zero], rfl⟩

def scrolled (button : WindowMessage) (forward : Bool) : BitVec 32 :=
  if isWheelMsg button then (if forward then SCROLL_DELTA_FORWARD else SCROLL_DELTA_BACKWARD) else 0

theorem sgrCode_state {button : WindowMessage} (state : MouseButtonState) (forward : Bool) (h : button ≠ .mouseMove) :
    sgrCode button state forward = sgrCode button {} forward := by
  cases button with
  | mouseMove => exact absurd rfl h
  | _ => rfl

theorem decoded_sgrCode {button : WindowMessage} {state held : MouseButtonState} (forward : Bool)
    (hbutton : ∀ value, button ≠ .other value) (hstate : button = .mouseMove → state = held) :
    decoded (sgrCode button state forward).1.toNat (sgrCode button state forward).2 held.flags =
      some ((held.after button).flags ||| scrolled button forward,
        flagIf (isWheelMsg button) MOUSE_WHEELED ||| flagIf (isHoverMsg button) MOUSE_MOVED) := by
  obtain ⟨left, middle, right⟩ := held
  cases button with
  | other value => exact absurd rfl (hbutton value)
  | mouseMove =>
    obtain rfl : state = ⟨left, middle, right⟩ := hstate rfl
    revert left middle right forward
    decide
  | _ =>
    rw [sgrCode_state state forward (by decide)]
    clear hstate hbutton
    revert left middle right forward
    decide

theorem flags_low (held : MouseButtonState) : ∀ wheel ∈ [0, SCROLL_DELTA_FORWARD, SCROLL_DELTA_BACKWARD],
    (held.flags ||| wheel) &&& 0xFFFF = held.flags ∧
      ((held.flags ||| wheel) >>> 16).setWidth 16 = (wheel >>> 16).setWidth 16 := by
  obtain ⟨left, middle, right⟩ := held
  intro wheel hwheel
  simp only [mem_cons, not_mem_nil, or_false] at hwheel
  rcases hwheel with rfl | rfl | rfl <;> cases left <;> cases middle <;> cases right <;> decide

theorem scrolled_sign (hdelta : isWheelMsg message.button = true → message.delta ≠ 0) :
    scrolled message.button (message.delta > 0) ∈ [0, SCROLL_DELTA_FORWARD, SCROLL_DELTA_BACKWARD] ∧
      ((scrolled message.button (message.delta > 0) >>> 16).setWidth 16).toInt.sign =
        if isWheelMsg message.button then message.delta.sign else 0 := by
  unfold scrolled
  cases hwheel : isWheelMsg message.button with
  | false =>
    simp only [Bool.false_eq_true, if_false]
    exact ⟨by simp, by decide⟩
  | true =>
    rcases Int.lt_or_gt_of_ne (hdelta hwheel) with h | h
    · have hbackward : ¬message.delta > 0 := Int.not_lt.mpr (Int.le_of_lt h)
      simp only [hbackward, Int.sign_eq_neg_one_of_neg h]
      exact ⟨by simp, by decide⟩
    · simp only [h, Int.sign_eq_one_of_pos h]
      exact ⟨by simp, by decide⟩

theorem eventFlags_read {click : BitVec 32} (hclick : click = 0 ∨ click = DOUBLE_CLICK) (wheel hover : Bool) :
    isAnyFlagSet (flagIf wheel MOUSE_WHEELED ||| flagIf hover MOUSE_MOVED ||| click) MOUSE_MOVED = hover ∧
      isAnyFlagSet (flagIf wheel MOUSE_WHEELED ||| flagIf hover MOUSE_MOVED ||| click) MOUSE_WHEELED = wheel := by
  rcases hclick with rfl | rfl <;> cases wheel <;> cases hover <;> decide

theorem csiDispatch_mouse (keyboard : Keyboard) (now : Int) {held : MouseButtonState}
    {e : InputEngine} (hproper : Proper message) (hstate : message.button = .mouseMove → message.state = held)
    (hdelta : isWheelMsg message.button = true → message.delta ≠ 0) (he : e.mouseButtonState = held.flags)
    (hx : (withModifiers message.modifierKeyState message.code.1).toInt = x)
    (hcolumn : message.position.1 + 1 = column) (hrow : message.position.2 + 1 = row) :
    let r := e.csiDispatch keyboard now
      (if message.code.2 then CsiActionCodes.mouseDown else CsiActionCodes.mouseUp)
      (([x, column, row].take 32).map fun n => { value := (min n 65535 : Nat) })
    (∃ event, r.1 = [.writeInput [.mouse event]] ∧ Reports event message (held.after message.button)) ∧
      r.2.mouseButtonState = (held.after message.button).flags := by
  intro r
  obtain ⟨hint, hsmall, hid, hdrag, hmodifiers⟩ := updateFlags_bits _ message.code_mem
    (message.modifierKeyState &&& SHIFT_BITS != 0) (message.modifierKeyState &&& ALT_PRESSED != 0)
    (message.modifierKeyState &&& CTRL_PRESSED != 0)
  have hx' : (withModifiers message.modifierKeyState message.code.1).toNat = x :=
    Int.natCast_inj.mp (hint.symm.trans hx)
  unfold withModifiers at hx'
  rw [hx'] at hsmall hid hdrag hmodifiers
  have hsame : decoded x message.code.2 e.mouseButtonState = decoded message.code.1.toNat
    message.code.2 held.flags := by
    unfold decoded
    rw [hid, hdrag, he]
  obtain ⟨click, e', hclick, hupdate, he'⟩ := updateSGRMouseButtonState_spec now message.position e
    (hsame.trans (decoded_sgrCode (message.delta > 0) hproper.button hstate))
  obtain ⟨hscrolled, hsign⟩ := scrolled_sign hdelta
  obtain ⟨hlow, hhigh⟩ := flags_low (held.after message.button) _ hscrolled
  have hcolumns := hproper.column
  have hrows := hproper.row
  -- the parameters are the numbers that were printed
  have hfirst : (({ value := (min x 65535 : Nat) } : VTParameter).valueOr 0).toNat = x := by
    unfold VTParameter.valueOr
    simp only
    omega
  have hcoordinate {n : Nat} {c : Int} (hn : c + 1 = n) (hc : 0 ≤ c ∧ c ≤ 32766) :
      ({ value := (min n 65535 : Nat) } : VTParameter).toVTInt - 1 = c := by
    unfold VTParameter.toVTInt
    simp only
    omega
  have hr : r = ([InputEngine.writeMouseEvent message.position
      ((held.after message.button).flags ||| scrolled message.button (message.delta > 0))
        (mergedModifiers message.modifierKeyState)
      (flagIf (isWheelMsg message.button) MOUSE_WHEELED ||| flagIf (isHoverMsg message.button) MOUSE_MOVED ||| click)],
      e') := by
    simp only [r, InputEngine.csiDispatch, VTParameters.at', take, map_cons, map_nil,
      getD_cons_zero, getD_cons_succ, hfirst, hcoordinate hcolumn hcolumns, hcoordinate hrow hrows]
    rw [if_pos (by cases message.code.2 <;> simp), show (message.position.1, message.position.2) =
      message.position from rfl, hupdate]
    simp only [hmodifiers]
    rfl
  rw [hr]
  refine ⟨⟨_, rfl, ?_, hlow, rfl, ?_, ?_, ?_⟩, ?_⟩
  · have hcast (c : Int) (hc : 0 ≤ c ∧ c ≤ 32766) : saturatedCast (-32768) 32767 c = c := by
      unfold saturatedCast
      rw [if_neg (by omega), if_neg (by omega)]
    rw [hcast _ hcolumns, hcast _ hrows]
  · exact (eventFlags_read hclick (isWheelMsg message.button) (isHoverMsg message.button)).1
  · exact (eventFlags_read hclick (isWheelMsg message.button) (isHoverMsg message.button)).2
  · rw [hhigh]
    exact hsign
  · exact he'.trans hlow

/-! ## Runs -/

structure Receiver where
  machine : StateMachine
  engine : InputEngine

section

variable (keyboard : Keyboard) (options : InputOptions) (answers : List Call → Bool) (clock : Nat →
  Int) (text : List Wchar)

/-- The engine hears the calls in order; `clock` gives their times. -/
def Receiver.receive (r : Receiver) : List Interaction × Receiver :=
  let machine := processString (inputEngine options answers) text r.machine
  let handled := r.engine.handleAll keyboard options clock (callsSince r.machine machine) r.machine.calls.length
  (handled.1, ⟨machine, handled.2⟩)

theorem Receiver.receive_written (r : Receiver) :
    (r.receive keyboard options answers clock text).1 = (r.engine.handleAll keyboard options clock
      (callsSince r.machine (processString (inputEngine options answers) text r.machine))
        r.machine.calls.length).1 := rfl

theorem Receiver.receive_machine (r : Receiver) : (r.receive keyboard options answers clock text).2.machine =
      processString (inputEngine options answers) text r.machine := rfl

theorem Receiver.receive_engine (r : Receiver) :
    (r.receive keyboard options answers clock text).2.engine = (r.engine.handleAll keyboard options clock
      (callsSince r.machine (processString (inputEngine options answers) text r.machine))
        r.machine.calls.length).2 := rfl

structure Exchange where
  message : MouseMessage
  held : MouseButtonState
  sent : List Wchar
  written : List Interaction
deriving DecidableEq, Repr

def exchanges : List MouseMessage → MouseButtonState → TerminalInput → Receiver → List Exchange
  | [], _, _, _ => []
  | message :: messages, held, t, r =>
    let held := held.after message.button
    let sent := (t.handleMouse message).2.1
    let received := if sent = [] then ([], r) else r.receive keyboard options answers clock sent
    ⟨message, held, sent, received.1⟩ :: exchanges messages held (t.handleMouse message).2.2 received.2

end

/-- Every move comes with the buttons left down before it. -/
def StatesGiven : List MouseMessage → MouseButtonState → Prop
  | [], _ => True
  | message :: messages, held =>
    (message.button = .mouseMove → message.state = held) ∧ StatesGiven messages (held.after message.button)

structure Receiver.Knows (options : InputOptions) (answers : List Call → Bool) (held : MouseButtonState)
    (r : Receiver) : Prop where
  reachable : InputReachable (inputEngine options answers) r.machine
  ground : r.machine.state = .ground
  buttons : r.engine.mouseButtonState = held.flags

section

variable (keyboard : Keyboard) {options : InputOptions} (answers : List Call → Bool) (clock : Nat → Int)

theorem receive_sgrSequence (hvt : (options.vtInputEnabled && options.flushCallback) = false) {message : MouseMessage}
    {held : MouseButtonState} {r : Receiver} (hproper : Proper message)
    (hstate : message.button = .mouseMove → message.state = held)
    (hdelta : isWheelMsg message.button = true → message.delta ≠ 0) (hr : r.Knows options answers held) :
    let s := r.receive keyboard options answers clock (sgrSequence message)
    (∃ event, s.1 = [.writeInput [.mouse event]] ∧ Reports event message (held.after message.button)) ∧
      s.2.Knows options answers (held.after message.button) := by
  obtain ⟨x, hx⟩ : ∃ x : Nat, (withModifiers message.modifierKeyState message.code.1).toInt = x :=
    ⟨_, (updateFlags_bits _ message.code_mem _ _ _).1⟩
  obtain ⟨column, hcolumn⟩ := Int.eq_ofNat_of_zero_le (Int.le_add_one hproper.column.1)
  obtain ⟨row, hrow⟩ := Int.eq_ofNat_of_zero_le (Int.le_add_one hproper.row.1)
  have hid : (identifierOf ([0x3C] ++ [])).finalize (if message.code.2 then 0x4D else 0x6D) =
      if message.code.2 then CsiActionCodes.mouseDown else CsiActionCodes.mouseUp := by
    cases message.code.2 <;> decide
  have hfinal : isFinal (if message.code.2 then 0x4D else 0x6D) = true := by
    cases message.code.2 <;> decide
  have hbody (ns : List Nat) : CsiBody ([0x3C] ++ (formatParams ns ++ [])) [0x3C] (formatParams ns) [] :=
    ⟨rfl, Nat.le_refl 1, by simp; decide, isParam_of_mem_formatParams ns, by simp⟩
  have hpass (c : Call) : options.passes c = false := by
    unfold InputOptions.passes
    rw [hvt, Bool.false_and]
  rw [sgrSequence_eq hproper.button hx hcolumn hrow]
  obtain ⟨hground, now, hhandled⟩ := handleAll_csiText keyboard clock hr.reachable hr.ground (hbody [x, column, row])
    hfinal (cons_ne_nil _ _) (hpass _) r.machine.calls.length r.engine
  rw [hid] at hhandled
  obtain ⟨hevent, hbuttons⟩ := csiDispatch_mouse keyboard now hproper hstate hdelta hr.buttons hx hcolumn hrow
  refine ⟨?_, ?_, ?_, ?_⟩
  · rw [Receiver.receive_written, hhandled]
    exact hevent
  · rw [Receiver.receive_machine]
    exact hr.reachable.processString _
  · exact hground
  · rw [Receiver.receive_engine, hhandled]
    exact hbuttons

theorem exchange_step (hvt : (options.vtInputEnabled && options.flushCallback) = false) {message : MouseMessage}
    {held : MouseButtonState} {t : TerminalInput} {r : Receiver} (ht : t.Tracks) (hproper : Proper message)
    (hstate : message.button = .mouseMove → message.state = held) (hr : r.Knows options answers held) :
    let sent := (t.handleMouse message).2.1
    let s := if sent = [] then ([], r) else r.receive keyboard options answers clock sent
    (sent ≠ [] → ∃ event, s.1 = [.writeInput [.mouse event]] ∧ Reports event message (held.after message.button)) ∧
      s.2.Knows options answers (held.after message.button) := by
  intro sent s
  rcases (ht.handleMouse message).2 with ⟨hsent, hdelta⟩ | ⟨hsent, hbutton⟩
  · have hne : sent ≠ [] := by
      rw [show sent = _ from hsent]
      exact cons_ne_nil _ _
    have hs : s = r.receive keyboard options answers clock (sgrSequence message) := by
      rw [← hsent]
      exact if_neg hne
    rw [hs]
    obtain ⟨hevent, hknows⟩ := receive_sgrSequence keyboard answers clock hvt hproper hstate hdelta hr
    exact ⟨fun _ => hevent, hknows⟩
  · have hs : s = ([], r) := if_pos hsent
    -- presses and releases are always sent
    have hheld : held.after message.button = held := by
      cases hcase : message.button with
      | mouseMove | mouseWheel | mouseHWheel | other => rfl
      | _ => simp [hcase, isButtonMsg, isWheelMsg] at hbutton
    rw [hs, hheld]
    exact ⟨fun hne => absurd hsent hne, hr⟩

theorem exchanges_reports (hvt : (options.vtInputEnabled && options.flushCallback) = false)
    (messages : List MouseMessage) {held : MouseButtonState} {t : TerminalInput} {r : Receiver} (ht : t.Tracks)
    (hproper : ∀ message ∈ messages, Proper message) (hstates : StatesGiven messages held)
    (hr : r.Knows options answers held) :
    ∀ x ∈ exchanges keyboard options answers clock messages held t r, x.sent ≠ [] →
      ∃ event, x.written = [.writeInput [.mouse event]] ∧ Reports event x.message x.held := by
  induction messages generalizing held t r with
  | nil =>
    intro x hx
    exact absurd hx not_mem_nil
  | cons message messages ih =>
    obtain ⟨hevent, hknows⟩ := exchange_step keyboard answers clock hvt ht
      (hproper message mem_cons_self) hstates.1 hr
    intro x hx
    rcases mem_cons.mp hx with rfl | hx
    · exact hevent
    · exact ih (ht.handleMouse message).1 (fun m hm => hproper m (mem_cons_of_mem _ hm)) hstates.2 hknows x hx

end

/-- Every sequence sent is read back as one record of its message. -/
theorem mouse_roundTrip (keyboard : Keyboard) (options : InputOptions) (answers : List Call → Bool) (clock : Nat → Int)
    (hvt : (options.vtInputEnabled && options.flushCallback) = false) {t : TerminalInput} (ht : t.Reachable)
    (htracking : t.inputMode .anyEventMouseTracking = true) (hencoding : t.inputMode .sgrMouseEncoding = true)
    (hscroll : (t.inAlternateBuffer && t.inputMode .alternateScroll) = false) {r : Receiver}
    (hr : InputReachable (inputEngine options answers) r.machine) (hground : r.machine.state = .ground)
    (hnone : r.engine.mouseButtonState = 0) (messages : List MouseMessage)
    (hproper : ∀ message ∈ messages, Proper message) (hstates : StatesGiven messages {}) :
    ∀ x ∈ exchanges keyboard options answers clock messages {} t r, x.sent ≠ [] →
      ∃ event, x.written = [.writeInput [.mouse event]] ∧ Reports event x.message x.held := by
  have hsingle : t.inputMode .utf8MouseEncoding = false := by
    have h := ht.encoding
    rwa [hencoding, Bool.true_and] at h
  exact exchanges_reports keyboard answers clock hvt messages ⟨htracking, hencoding, hsingle, hscroll⟩ hproper hstates
    ⟨hr, hground, hnone⟩

def sgrInput : TerminalInput :=
  (TerminalInput.setInputMode .sgrMouseEncoding true (TerminalInput.setInputMode .anyEventMouseTracking true {}))

theorem reachable_sgrInput : sgrInput.Reachable := (TerminalInput.Reachable.new.setInputMode _ _).setInputMode _ _

def newReceiver : Receiver := ⟨new (inputEngine ⟨false, true⟩ fun _ => true) true, { doubleClickTime := 500 }⟩

theorem mouse_roundTrip_drag :
    let messages : List MouseMessage := [ { position := (3, 4), button := .rButtonDown, modifierKeyState := 0x0005 },
      { position := (9, 4), button := .mouseMove, state := { isRightButtonDown := true } },
      { position := (9, 4), button := .mouseWheel, delta := -120 },
      { position := (9, 4), button := .rButtonUp }]
    let xs := exchanges plainKeyboard ⟨false, true⟩ (fun _ => true) (fun n => n) messages {} sgrInput newReceiver
    (∀ x ∈ xs, x.sent ≠ []) ∧ ∀ x ∈ xs, x.sent ≠ [] →
      ∃ event, x.written = [.writeInput [.mouse event]] ∧ Reports event x.message x.held := by
  refine ⟨by decide +kernel, mouse_roundTrip plainKeyboard ⟨false, true⟩ (fun _ => true)
    (fun n => n) rfl reachable_sgrInput rfl rfl rfl InputReachable.new rfl rfl _ ?_ ?_⟩
  · intro message hmessage
    simp only [mem_cons, not_mem_nil, or_false] at hmessage
    rcases hmessage with rfl | rfl | rfl | rfl <;> exact ⟨by simp, by decide, by decide⟩
  · simp [StatesGiven, MouseButtonState.after]

/-- In the alternate buffer, the wheel sends cursor keys. -/
theorem mouse_roundTrip_alternateScroll :
    let t := (TerminalInput.setInputMode .alternateScroll true sgrInput).useAlternateScreenBuffer
    let messages : List MouseMessage := [{ position := (0, 0), button := .mouseWheel, delta := 120 }]
    t.Reachable ∧ t.inputMode .anyEventMouseTracking = true ∧ t.inputMode .sgrMouseEncoding = true ∧
      (∀ message ∈ messages, Proper message) ∧ StatesGiven messages {} ∧
      ¬∀ x ∈ exchanges plainKeyboard ⟨false, true⟩ (fun _ => true) (fun n => n) messages {} t newReceiver, x.sent ≠ [] →
        ∃ event, x.written = [.writeInput [.mouse event]] ∧ Reports event x.message x.held := by
  refine ⟨(reachable_sgrInput.setInputMode _ _).useAlternateScreenBuffer, rfl, rfl, ?_, ?_, ?_⟩
  · intro message hmessage
    obtain rfl := mem_singleton.mp hmessage
    exact ⟨by simp, by decide, by decide⟩
  · simp [StatesGiven]
  · rw [show exchanges plainKeyboard ⟨false, true⟩ (fun _ => true) (fun n => n)
      [{ position := (0, 0), button := .mouseWheel, delta := 120 }] {}
      (TerminalInput.setInputMode .alternateScroll true sgrInput).useAlternateScreenBuffer newReceiver =
        [⟨{ position := (0, 0), button := .mouseWheel, delta := 120 }, {}, [ESC, 0x5B, 0x41],
          [.writeInput (singleKeypress plainKeyboard 0x26 VK_UP ENHANCED_KEY)]⟩] by decide +kernel]
    intro h
    obtain ⟨event, hevent, -⟩ := h _ (mem_singleton_self _) (by decide)
    simp [singleKeypress] at hevent

end Terminal.Input
