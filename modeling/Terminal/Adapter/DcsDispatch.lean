import Terminal.Parser.PassThrough

/-!
# Control strings that a conpty forwards

DECDLD and DECRSTS go on to the connected terminal: the introducer once parsed, the data as it
comes, the terminator at the end.
-/

namespace Terminal.Adapter

open Terminal.Parser Terminal.Parser.StateMachine List

/-! ## Codes -/

inductive DcsActionCodes
  | decdldDownloadDRCS | decdmacDefineMacro | decrstsRestoreTerminalState | decrqssRequestSetting
deriving DecidableEq, Repr

namespace DcsActionCodes

def code : DcsActionCodes → VTID
  | .decdldDownloadDRCS => VTID.fromString ['\x7b']
  | .decdmacDefineMacro => VTID.fromString ['!', 'z']
  | .decrstsRestoreTerminalState => VTID.fromString ['$', 'p']
  | .decrqssRequestSetting => VTID.fromString ['$', 'q']

def all : List DcsActionCodes :=
  [.decdldDownloadDRCS, .decdmacDefineMacro, .decrstsRestoreTerminalState, .decrqssRequestSetting]

def ofId (id : VTID) : Option DcsActionCodes := all.find? fun c => c.code == id

theorem ofId_code (c : DcsActionCodes) : ofId c.code = some c := by
  cases c <;> rfl

end DcsActionCodes

def isCharset96 (ps : VTParameters) : Bool := (ps.at' 7).toEnum = 1

section

-- which parameters the font buffer and the macro buffer take
variable (fontAccepts macroAccepts : VTParameters → Bool)

/-- `ActionDcsDispatch` in conpty mode. -/
def conptyHandler (ps : VTParameters) : DcsActionCodes → Option StringHandler
  | .decdldDownloadDRCS => if fontAccepts ps then some (.drcs (isCharset96 ps) false []) else none
  | .decdmacDefineMacro => if macroAccepts ps then some .engine else none
  -- only the colour table can be restored
  | .decrstsRestoreTerminalState => if (ps.at' 0).toEnum = 2 then some (.passthrough []) else none
  | .decrqssRequestSetting => some .engine

def conptyReply (reply : List Call → Reply) (calls : List Call) : Reply :=
  match calls.getLast? with
  | some (.dcsDispatch id ps) =>
    { reply calls with handler := (DcsActionCodes.ofId id).bind (conptyHandler fontAccepts macroAccepts ps) }
  | _ => reply calls

def conptyEngine (reply : List Call → Reply) (inject : List Wchar → StateMachine → StateMachine) : Engine :=
  outputEngine true (conptyReply fontAccepts macroAccepts reply) inject

end

/-! ## Turns in a row -/

/-- The same machine for a sequence that goes on in the next string. -/
structure Resumes (m k : StateMachine) : Prop where
  state : k.state = m.state
  handler : k.dcsStringHandler = m.dcsStringHandler
  calls : k.calls = m.calls
  identifier : k.identifier = m.identifier
  flag : k.processingIndividually = m.processingIndividually
  output : k.isEngineForInput = m.isEngineForInput

theorem Resumes.refl (m : StateMachine) : Resumes m m := ⟨rfl, rfl, rfl, rfl, rfl, rfl⟩

theorem Resumes.trans {a b c : StateMachine} (hab : Resumes a b) (hbc : Resumes b c) : Resumes a c :=
  ⟨hbc.state.trans hab.state, hbc.handler.trans hab.handler, hbc.calls.trans hab.calls,
    hbc.identifier.trans hab.identifier, hbc.flag.trans hab.flag, hbc.output.trans hab.output⟩

structure InSequence (m : StateMachine) : Prop where
  flag : m.processingIndividually = true
  output : m.isEngineForInput = false

theorem Resumes.inSequence {m k : StateMachine} (h : Resumes m k) (hm : InSequence m) : InSequence k :=
  ⟨h.flag.trans hm.flag, h.output.trans hm.output⟩

def Chain (E : Engine) : StateMachine → List Turn → Prop
  | _, [] => True
  | m, t :: ts => (InSequence m → Resumes m t.before) ∧
      (∃ last start current, t.after = (turn E t.wch last start current t.before).2) ∧ Chain E t.after ts

section

variable {E : Engine} {m k : StateMachine}

theorem finishRun_resumes (start : Nat) : Resumes m (finishRun start m) := by
  unfold finishRun
  split <;> exact ⟨rfl, rfl, rfl, rfl, rfl, rfl⟩

theorem finishString_resumes (hm : InSequence m) (start : Nat) : Resumes m (finishString E start m) := by
  have h := finishRun_resumes (m := m) start
  unfold finishString
  dsimp only
  rw [h.flag, hm.flag, h.output, hm.output]
  simp only [Bool.not_true, Bool.false_and, Bool.false_eq_true, if_false, if_true]
  split
  · exact { h with flag := hm.flag.symm, output := hm.output.symm }
  · exact h

theorem Chain.resumed {ts : List Turn} (hmk : InSequence m → Resumes m k) (h : Chain E k ts) : Chain E m ts := by
  cases ts with
  | nil => trivial
  | cons t ts =>
    refine ⟨?_, h.2⟩
    intro hm
    exact (hmk hm).trans (h.1 ((hmk hm).inSequence hm))

theorem turns_chain (rest : List Wchar) (start current : Nat) {ts : List Turn}
    (h : Chain E (processLoop E rest start current m).2 ts) : Chain E m (turns E rest start current m ++ ts) := by
  induction rest generalizing start current m with
  | nil => exact h
  | cons wch rest ih =>
    refine ⟨fun _ => Resumes.refl m, ⟨_, _, _, rfl⟩, ?_⟩
    exact ih _ _ h

theorem trace_chain (chunks : List (List Wchar)) (m : StateMachine) : Chain E m (trace E chunks m) := by
  induction chunks generalizing m with
  | nil => trivial
  | cons chunk chunks ih =>
    let m₀ := { m with currentString := chunk, runOffset := 0, runSize := some 0 }
    have hstart : InSequence m → Resumes m m₀ := fun _ => ⟨rfl, rfl, rfl, rfl, rfl, rfl⟩
    have hrest : Chain E (processLoop E chunk 0 0 m₀).2 (trace E chunks (processString E chunk m)) :=
      (ih _).resumed fun hm => finishString_resumes hm _
    exact (turns_chain chunk 0 0 hrest).resumed hstart

theorem Chain.drop {a b : List Turn} {t : Turn} (h : Chain E m (a ++ t :: b)) :
    (∃ last start current, t.after = (turn E t.wch last start current t.before).2) ∧ Chain E t.after b := by
  induction a generalizing m with
  | nil => exact h.2
  | cons u a ih => exact ih h.2.2

/-! ## The introducer -/

theorem actionClear_keeps : (actionClear E m).state = m.state ∧ (actionClear E m).identifier = {} := by
  exact ⟨(notify_untouched _).state, (notify_untouched _).identifier⟩

theorem processNonC1_escape {wch : Wchar} (hm : m.state = .escape) :
    (processNonC1 E wch m).state ≠ .dcsPassThrough := by
  unfold processNonC1
  split
  · exact fun h => by cases h
  · split
    · rw [show (enterEscape E (actionInterrupt E m)).state = .escape from actionClear_keeps.1]
      decide
    · unfold event
      unfold eventEscape
      split_ifs <;> simp [actionExecute, actionExecuteFromEscape, actionIgnore, actionEscDispatch,
        actionVt52EscDispatch,
        enterGround, enterEscapeIntermediate, enterCsiEntry, enterOscParam, enterSs3Entry,
          enterVt52Param, enterDcsEntry,
        enterSosPmApcString, actionClear_keeps, (notify_untouched _).state, hm]

def readsIntroducer : VTStates → Bool
  | .dcsEntry | .dcsParam | .dcsIntermediate => true
  | _ => false

theorem event_dispatches {wch : Wchar} (hm : readsIntroducer m.state = true)
    (h : (event E wch m).state = .dcsPassThrough) : event E wch m = actionDcsDispatch E wch m := by
  have hne : m.state ≠ .dcsPassThrough := fun hs => by rw [hs] at hm; cases hm
  unfold event at h ⊢
  cases hs : m.state with
  | dcsEntry =>
    rw [hs] at h
    unfold eventDcsEntry at h ⊢
    split_ifs at h ⊢ <;> first | rfl | exact absurd h hne | cases h
  | dcsParam =>
    rw [hs] at h
    unfold eventDcsParam at h ⊢
    split_ifs at h ⊢ <;> first | rfl | exact absurd h hne | cases h
  | dcsIntermediate =>
    rw [hs] at h
    unfold eventDcsIntermediate at h ⊢
    split_ifs at h ⊢ <;> first | rfl | exact absurd h hne | cases h
  | _ =>
    rw [hs] at hm
    cases hm

theorem processCharacter_dispatches {wch : Wchar} (hm : readsIntroducer m.state = true)
    (h : (processCharacter E wch m).state = .dcsPassThrough) :
    processCharacter E wch m = actionDcsDispatch E wch m := by
  have hne : m.state ≠ .dcsPassThrough := fun hs => by rw [hs] at hm; cases hm
  have hosc : m.state ≠ .oscString := fun hs => by rw [hs] at hm; cases hm
  unfold processCharacter at h ⊢
  split at h
  · split at h
    · refine absurd h (processNonC1_escape ?_)
      unfold processNonC1
      rw [if_neg (by simp [isFromAnywhereChar, ESC]), if_pos (by simp [isEscape, ESC, hosc])]
      exact actionClear_keeps.1
    · exact absurd h hne
  · rename_i hc1
    rw [if_neg hc1]
    unfold processNonC1 at h ⊢
    split at h
    · cases h
    · split at h
      · rw [show (enterEscape E (actionInterrupt E m)).state = .escape from actionClear_keeps.1] at h
        cases h
      · rename_i hany hesc
        rw [if_neg hany, if_neg hesc]
        exact event_dispatches hm h

inductive Forwarded
  | plain
  | font (charset96 : Bool)
deriving DecidableEq, Repr

namespace Forwarded

def handler (idSeen : Bool) (buffer : List Wchar) : Forwarded → StringHandler
  | .plain => .passthrough buffer
  | .font charset96 => .drcs charset96 idSeen buffer

def terminator : Forwarded → List Wchar
  | .plain => [ESC, 0x5C]
  | .font charset96 => [ESC, 0x5C] ++ scsSequence charset96

/-- A font is only forwarded from its name on. -/
def started (idSeen : Bool) : Forwarded → Bool
  | .plain => true
  | .font _ => idSeen

end Forwarded

def endsName (wch : Wchar) : Bool := 0x30 ≤ wch.toNat && wch.toNat ≤ 0x7E

def forwardsData (m : StateMachine) : Bool :=
  m.state = .dcsPassThrough && match m.dcsStringHandler with
    | some (.passthrough _) | some (.drcs _ _ _) => true
    | _ => false

/-- The string is forwarded, since `origin` only if it has started. -/
structure Sending (origin : List Call) (f : Forwarded) (idSeen : Bool) (m : StateMachine) : Prop where
  inSequence : InSequence m
  state : m.state = .dcsPassThrough
  handler : ∃ buffer, m.dcsStringHandler = some (f.handler idSeen buffer)
  calls : ∃ more, m.calls = origin ++ more ∧ (f.started idSeen = false → passed more = [])

theorem Sending.resumed {origin : List Call} {f : Forwarded} {idSeen : Bool} (h : Sending origin f idSeen m)
    (hmk : Resumes m k) : Sending origin f idSeen k := by
  refine ⟨hmk.inSequence h.inSequence, hmk.state.trans h.state, ?_, ?_⟩
  · rw [hmk.handler]
    exact h.handler
  · rw [hmk.calls]
    exact h.calls

/-! ## Data -/

structure Extends (more : List Call) (m k : StateMachine) : Prop where
  state : k.state = m.state
  flag : k.processingIndividually = m.processingIndividually
  output : k.isEngineForInput = m.isEngineForInput
  calls : k.calls = m.calls ++ more

theorem call_extends (E : Engine) (c : Call) (m : StateMachine) : Extends [c] m (call E c m).2 := ⟨rfl, rfl, rfl, rfl⟩

theorem passthroughPut_extends (E : Engine) (wch : Wchar) (buffer : List Wchar) (m : StateMachine) :
    ∃ more, Extends more m (passthroughPut E wch buffer m).2.2 ∧
      (isEscape wch = true → passed more = buffer ++ [wch, 0x5C]) := by
  unfold passthroughPut
  dsimp only
  split
  · refine ⟨_, call_extends E _ m, ?_⟩
    intro hesc
    simp [hesc, passed, passText]
  · rename_i hkeep
    refine ⟨[], ⟨rfl, rfl, rfl, (append_nil _).symm⟩, ?_⟩
    intro hesc
    simp [hesc] at hkeep

theorem passthroughPut_answer (E : Engine) (wch : Wchar) (buffer : List Wchar) (m : StateMachine) :
    (passthroughPut E wch buffer m).1 = !isEscape wch := by
  unfold passthroughPut
  dsimp only
  split <;> rfl

theorem Extends.trans {a b : List Call} {m k n : StateMachine} (h : Extends a m k) (h' : Extends b k n) :
    Extends (a ++ b) m n :=
  ⟨h'.state.trans h.state, h'.flag.trans h.flag, h'.output.trans h.output, by rw [h'.calls, h.calls, append_assoc]⟩

theorem drcsPut_spec (E : Engine) (wch : Wchar) (wide gotId : Bool) (buffer : List Wchar) (m : StateMachine) :
    ∃ buffer' more, (drcsPut E wch wide gotId buffer m).1 = .drcs wide (gotId || endsName wch) buffer' ∧
      Extends more m (drcsPut E wch wide gotId buffer m).2 ∧
      ((gotId || endsName wch) = false → more = []) ∧
      (gotId = true → isEscape wch = true → passed more = buffer ++ [wch, 0x5C] ++ scsSequence wide) := by
  have hname_def : (0x30 ≤ wch.toNat && wch.toNat ≤ 0x7E) = endsName wch := rfl
  unfold drcsPut
  rw [hname_def]
  cases gotId with
  | false =>
    by_cases hname : endsName wch = true
    · obtain ⟨more, hmore, -⟩ := passthroughPut_extends E 0x40 buffer m
      rw [hname]
      exact ⟨_, more, rfl, hmore, (fun h => by cases h), (fun h => by cases h)⟩
    · have hfalse : endsName wch = false := by simpa using hname
      rw [hfalse]
      exact ⟨_, [], rfl, ⟨rfl, rfl, rfl, (append_nil _).symm⟩, (fun _ => rfl), (fun h => by cases h)⟩
  | true =>
    obtain ⟨more, hmore, hpassed⟩ := passthroughPut_extends E wch buffer m
    have hanswer := passthroughPut_answer E wch buffer m
    simp only [Bool.true_or]
    rw [hanswer]
    cases hesc : isEscape wch with
    | false => exact ⟨_, more, rfl, hmore, (fun h => by cases h), (fun _ h => by cases h)⟩
    | true =>
      refine ⟨_, more ++ [.passThroughString (scsSequence wide)], rfl, hmore.trans (call_extends E _ _),
        fun h => (by cases h), ?_⟩
      rw [passed_append, hpassed hesc]
      simp [passed, passText]

theorem callStringHandler_passthrough {wch : Wchar} {buffer : List Wchar}
    (h : m.dcsStringHandler = some (.passthrough buffer)) :
    callStringHandler E wch m = ((passthroughPut E wch buffer m).1, { (passthroughPut E wch buffer m).2.2 with
        dcsStringHandler := some (.passthrough (passthroughPut E wch buffer m).2.1) }) := by
  unfold callStringHandler
  rw [h]

theorem callStringHandler_drcs {wch : Wchar} {wide gotId : Bool} {buffer : List Wchar}
    (h : m.dcsStringHandler = some (.drcs wide gotId buffer)) :
    callStringHandler E wch m = (true, (call E (.stringHandler wch) { (drcsPut E wch wide gotId buffer m).2 with
        dcsStringHandler := some (drcsPut E wch wide gotId buffer m).1 }).2) := by
  unfold callStringHandler
  rw [h]

section

variable {origin : List Call} {f : Forwarded} {idSeen : Bool} {wch : Wchar}

theorem Sending.extends {idSeen' : Bool} {more : List Call} {buffer : List Wchar} (h : Sending origin f idSeen m)
    (hmk : Extends more m k) (hhandler : k.dcsStringHandler = some (f.handler idSeen' buffer))
    (hquiet : f.started idSeen' = false → f.started idSeen = false ∧ passed more = []) :
    Sending origin f idSeen' k := by
  obtain ⟨before, hbefore, hsilent⟩ := h.calls
  refine ⟨⟨hmk.flag.trans h.inSequence.flag, hmk.output.trans h.inSequence.output⟩, hmk.state.trans h.state,
    ⟨buffer, hhandler⟩, before ++ more, ?_, ?_⟩
  · rw [hmk.calls, hbefore, append_assoc]
  · intro hstarted
    obtain ⟨hbeforeStart, hmore⟩ := hquiet hstarted
    rw [passed_append, hsilent hbeforeStart, hmore]
    rfl

theorem callStringHandler_data (hesc : isEscape wch = false) (h : Sending origin f idSeen m) :
    (callStringHandler E wch m).1 = true ∧ Sending origin f (idSeen || endsName wch) (callStringHandler E wch m).2 := by
  obtain ⟨buffer, hbuffer⟩ := h.handler
  cases f with
  | plain =>
    obtain ⟨more, hmore, -⟩ := passthroughPut_extends E wch buffer m
    rw [callStringHandler_passthrough hbuffer, passthroughPut_answer, hesc]
    refine ⟨rfl, ?_⟩
    exact h.extends { hmore with } rfl (fun hstarted => by cases hstarted)
  | font wide =>
    obtain ⟨buffer', more, hhandler, hmore, hnone, -⟩ := drcsPut_spec E wch wide idSeen buffer m
    rw [callStringHandler_drcs hbuffer, hhandler]
    refine ⟨rfl, ?_⟩
    have hextends : Extends (more ++ [.stringHandler wch]) m (call E (.stringHandler wch)
        { (drcsPut E wch wide idSeen buffer m).2 with
          dcsStringHandler := some (.drcs wide (idSeen || endsName wch) buffer') }).2 :=
      Extends.trans (k := { (drcsPut E wch wide idSeen buffer m).2 with
        dcsStringHandler := some (.drcs wide (idSeen || endsName wch) buffer') })
        { hmore with } (call_extends E _ _)
    refine h.extends hextends rfl ?_
    intro hstarted
    have hboth : (idSeen || endsName wch) = false := hstarted
    refine ⟨(Bool.or_eq_false_iff.mp hboth).1, ?_⟩
    rw [hnone hboth]
    rfl

theorem processCharacter_data (hends : endsString m wch = false) (h : Sending origin f idSeen m) :
    Sending origin f (idSeen || endsName wch) (processCharacter E wch m) := by
  unfold endsString at hends
  simp only [Bool.or_eq_false_iff] at hends
  obtain ⟨⟨hesc, hany⟩, hc1⟩ := hends
  unfold processCharacter
  split
  · rename_i hcontrol
    have hparses : m.parserMode.parsesC1 = false := by simpa [hcontrol] using hc1
    have hname : endsName wch = false := by
      simp only [isC1ControlCharacter, endsName, Bool.and_eq_true, decide_eq_true_eq] at hcontrol ⊢
      simp
      omega
    rw [if_neg (by simp [hparses]), hname, Bool.or_false]
    exact h
  · unfold processNonC1 event
    rw [if_neg (by simp [hany]), if_neg (by simp [hesc]), h.state]
    dsimp only
    unfold eventDcsPassThrough
    split
    · obtain ⟨hmore, hsending⟩ := callStringHandler_data (E := E) hesc h
      change Sending origin f _ (if (callStringHandler E wch m).1 = true then (callStringHandler E wch m).2
        else enterDcsIgnore (callStringHandler E wch m).2)
      rw [if_pos hmore]
      exact hsending
    · rename_i hvalid
      have hname : endsName wch = false := by
        simp only [isDcsPassThroughValid, Bool.or_eq_true, Bool.and_eq_true, decide_eq_true_eq] at hvalid
        simp only [endsName, Bool.and_eq_false_iff, decide_eq_false_iff_not]
        omega
      rw [hname, Bool.or_false]
      exact h

theorem turn_data {last : Bool} {start current : Nat} (hends : endsString m wch = false)
    (h : Sending origin f idSeen m) :
    Sending origin f (idSeen || endsName wch) (turn E wch last start current m).2 := by
  have hprocess : Sending origin f (idSeen || endsName wch) (processCharacter E wch { m with
      runOffset := start, runSize := some (current - start + 1), processingLastCharacter := last }) :=
    processCharacter_data hends (h.resumed ⟨rfl, rfl, rfl, rfl, rfl, rfl⟩)
  rw [turn_individually h.inSequence.flag]
  unfold processIndividually
  rw [if_neg (by rw [hprocess.state]; decide)]
  exact hprocess

theorem Chain.data {data rest : List Turn} (hchain : Chain E m (data ++ rest))
    (hdata : ∀ t ∈ data, endsString t.before t.wch = false) (h : Sending origin f idSeen m) :
    ∃ k, Chain E k rest ∧ Sending origin f (idSeen || data.any fun t => endsName t.wch) k := by
  induction data generalizing m idSeen with
  | nil =>
    refine ⟨m, hchain, ?_⟩
    rw [any_nil, Bool.or_false]
    exact h
  | cons t data ih =>
    obtain ⟨hresumes, ⟨last, start, current, hafter⟩, hchain'⟩ := hchain
    have hbefore : Sending origin f idSeen t.before := h.resumed (hresumes h.inSequence)
    have hsending : Sending origin f (idSeen || endsName t.wch) t.after := by
      rw [hafter]
      exact turn_data (hdata t mem_cons_self) hbefore
    obtain ⟨k, hk, hsent⟩ := ih hchain' (fun u hu => hdata u (mem_cons_of_mem t hu)) hsending
    refine ⟨k, hk, ?_⟩
    rw [any_cons, ← Bool.or_assoc]
    exact hsent

/-! ## The end of the string -/

def Ended (origin : List Call) (f : Forwarded) (started : Bool) (calls : List Call) : Prop :=
  ∃ more, calls = origin ++ more ∧ if started then f.terminator <:+ passed more else passed more = []

theorem Ended.append {started : Bool} {calls : List Call} (h : Ended origin f started calls) {c : Call}
    (hc : passText c = []) : Ended origin f started (calls ++ [c]) := by
  obtain ⟨more, rfl, hmore⟩ := h
  have hpassed : passed (more ++ [c]) = passed more := by
    simp [passed, hc]
  refine ⟨more ++ [c], append_assoc _ _ _, ?_⟩
  rw [hpassed]
  exact hmore

theorem actionInterrupt_ended (E : Engine) (h : Sending origin f idSeen m) :
    Ended origin f (f.started idSeen) (actionInterrupt E m).calls ∧ InSequence (actionInterrupt E m) := by
  obtain ⟨buffer, hbuffer⟩ := h.handler
  obtain ⟨before, hbefore, hsilent⟩ := h.calls
  unfold actionInterrupt
  rw [if_pos h.state]
  cases f with
  | plain =>
    obtain ⟨more, hmore, hpassed⟩ := passthroughPut_extends E ESC buffer m
    rw [callStringHandler_passthrough hbuffer]
    refine ⟨⟨before ++ more, ?_, ?_⟩, hmore.flag.trans h.inSequence.flag, hmore.output.trans h.inSequence.output⟩
    · rw [← append_assoc, ← hbefore]
      exact hmore.calls
    · rw [passed_append, hpassed rfl]
      exact suffix_append_of_suffix (suffix_append _ _)
  | font wide =>
    obtain ⟨buffer', more, hhandler, hmore, hnone, hpassed⟩ := drcsPut_spec E ESC wide idSeen buffer m
    rw [callStringHandler_drcs hbuffer]
    refine ⟨?_, hmore.flag.trans h.inSequence.flag, hmore.output.trans h.inSequence.output⟩
    have hcalls : Ended origin (.font wide) (Forwarded.started idSeen (.font wide))
        (drcsPut E ESC wide idSeen buffer m).2.calls := by
      refine ⟨before ++ more, ?_, ?_⟩
      · rw [← append_assoc, ← hbefore]
        exact hmore.calls
      · rw [passed_append]
        cases idSeen with
        | true =>
          rw [hpassed rfl rfl, append_assoc buffer]
          exact suffix_append_of_suffix (suffix_append _ _)
        | false =>
          rw [hsilent rfl, hnone rfl]
          rfl
    exact hcalls.append rfl

end

section

variable (D : List Call → Reply) (inject : List Wchar → StateMachine → StateMachine)

theorem notify_quiet {c : Call} (h : E.flushes c (call E c m).1 = false) : notify E c m = (call E c m).2 := by
  unfold notify
  dsimp only
  rw [h]
  rfl

theorem enterEscape_quiet (m : StateMachine) :
    let k := enterEscape (outputEngine true D inject) m
    k.calls = m.calls ++ [.clear] ∧ k.state = .escape ∧ k.identifier = {} ∧
      k.processingIndividually = m.processingIndividually ∧ k.isEngineForInput = m.isEngineForInput := by
  exact ⟨rfl, rfl, rfl, rfl, rfl⟩

theorem processNonC1_esc (h : m.state ≠ .oscString) : processNonC1 E ESC m = enterEscape E (actionInterrupt E m) := by
  unfold processNonC1
  rw [if_neg (by simp [isFromAnywhereChar, ESC]), if_pos (by simp [isEscape, ESC, h])]

theorem processNonC1_backslash (hstate : m.state = .escape) (hid : m.identifier = {}) :
    ∃ c, passText c = [] ∧ (processNonC1 (outputEngine true D inject) 0x5C m).calls = m.calls ++ [c] := by
  by_cases hansi : m.parserMode.ansi = true
  · refine ⟨.escDispatch (VTID.fromString ['\\']), rfl, ?_⟩
    have hstep : processNonC1 (outputEngine true D inject) 0x5C m =
        enterGround (notify (outputEngine true D inject) (.escDispatch (VTID.fromString ['\\'])) m) := by
      simp [processNonC1, isFromAnywhereChar, isEscape, event, eventEscape, isC0Code, isDelete, isIntermediate,
        hstate, hansi, actionEscDispatch, hid]
      rfl
    rw [hstep, notify_quiet (by simp [call, outputEngine])]
    rfl
  · refine ⟨.vt52EscDispatch (m.identifier.finalize 0x5C) m.parameters, rfl, ?_⟩
    have hstep : processNonC1 (outputEngine true D inject) 0x5C m = enterGround
        (notify (outputEngine true D inject) (.vt52EscDispatch (m.identifier.finalize 0x5C) m.parameters) m) := by
      simp [processNonC1, isFromAnywhereChar, isEscape, event, eventEscape, isC0Code, isDelete, isIntermediate,
        isVt52CursorAddress, hstate, hansi, actionVt52EscDispatch]
    rw [hstep]
    rfl

theorem turn_processes (E : Engine) (wch : Wchar) (last : Bool) (start current : Nat)
    (hm : m.processingIndividually = true) :
    ∃ m', Resumes m m' ∧ m'.parserMode = m.parserMode ∧
      (turn E wch last start current m).2.calls = (processCharacter E wch m').calls ∧
      ((processCharacter E wch m').state ≠ .ground → (turn E wch last start current m).2 =
        processCharacter E wch m') := by
  refine ⟨{ m with runOffset := start, runSize := some (current - start + 1), processingLastCharacter := last },
    ⟨rfl, rfl, rfl, rfl, rfl, rfl⟩, rfl, ?_⟩
  rw [turn_individually hm]
  unfold processIndividually
  dsimp only
  split
  · rename_i hground
    exact ⟨rfl, fun h => absurd hground h⟩
  · exact ⟨rfl, fun _ => rfl⟩

/-- `ESC`, CAN, SUB or a string terminator, maybe cut in half. -/
def Terminates : List Turn → Prop
  | [t] => t.wch = ESC ∨ t.wch = CAN ∨ t.wch = SUB ∨ t.wch = 0x9C ∧ t.before.parserMode.parsesC1 = true
  | [t, u] => t.wch = ESC ∧ u.wch = 0x5C
  | _ => False

variable {origin : List Call} {f : Forwarded} {idSeen : Bool}

theorem processNonC1_ended (h : Sending origin f idSeen m) :
    let k := processNonC1 (outputEngine true D inject) ESC m
    Ended origin f (f.started idSeen) k.calls ∧ k.state = .escape ∧ k.identifier = {} ∧ InSequence k := by
  obtain ⟨hended, hin⟩ := actionInterrupt_ended (outputEngine true D inject) h
  rw [processNonC1_esc (by rw [h.state]; decide)]
  obtain ⟨hcalls, hstate, hid, hflag, hout⟩ :=
    enterEscape_quiet D inject (actionInterrupt (outputEngine true D inject) m)
  refine ⟨?_, hstate, hid, hflag.trans hin.flag, hout.trans hin.output⟩
  exact hended.append rfl

theorem processCharacter_ended {wch : Wchar} (h : Sending origin f idSeen m)
    (hwch : wch = ESC ∨ wch = CAN ∨ wch = SUB ∨ wch = 0x9C ∧ m.parserMode.parsesC1 = true) :
    Ended origin f (f.started idSeen) (processCharacter (outputEngine true D inject) wch m).calls := by
  obtain ⟨hinterrupt, -⟩ := actionInterrupt_ended (outputEngine true D inject) h
  obtain ⟨hended, hstate, hid, -⟩ := processNonC1_ended D inject h
  have hcancel (c : Wchar) (hc : c = CAN ∨ c = SUB) :
      Ended origin f (f.started idSeen) (processCharacter (outputEngine true D inject) c m).calls := by
    have hstep : processCharacter (outputEngine true D inject) c m = enterGround (actionExecute
        (outputEngine true D inject) c (actionInterrupt (outputEngine true D inject) m)) := by
      rcases hc with rfl | rfl <;>
        simp [processCharacter, processNonC1, isC1ControlCharacter, isFromAnywhereChar, CAN, SUB, h.state]
    rw [hstep, actionExecute, notify_quiet (by rcases hc with rfl | rfl <;> simp [outputEngine, CAN, SUB, BEL])]
    exact hinterrupt.append rfl
  rcases hwch with rfl | rfl | rfl | ⟨rfl, hparses⟩
  · exact hended
  · exact hcancel CAN (Or.inl rfl)
  · exact hcancel SUB (Or.inr rfl)
  · obtain ⟨c, hc, hcalls⟩ := processNonC1_backslash D inject hstate hid
    have hstep : processCharacter (outputEngine true D inject) 0x9C m = processNonC1 (outputEngine true D inject) 0x5C
        (processNonC1 (outputEngine true D inject) ESC m) := by
      unfold processCharacter
      rw [if_pos hparses]
      rfl
    rw [hstep, hcalls]
    exact hended.append hc

theorem turn_ended {wch : Wchar} {last : Bool} {start current : Nat} (h : Sending origin f idSeen m)
    (hwch : wch = ESC ∨ wch = CAN ∨ wch = SUB ∨ wch = 0x9C ∧ m.parserMode.parsesC1 = true) :
    Ended origin f (f.started idSeen) (turn (outputEngine true D inject) wch last start current m).2.calls := by
  obtain ⟨m', hm', hmode, hcalls, -⟩ := turn_processes (outputEngine true D inject) wch last start
    current h.inSequence.flag
  rw [hcalls]
  apply processCharacter_ended D inject (h.resumed hm')
  rw [hmode]
  exact hwch

theorem turn_escape {last : Bool} {start current : Nat} (h : Sending origin f idSeen m) :
    let k := (turn (outputEngine true D inject) ESC last start current m).2
    Ended origin f (f.started idSeen) k.calls ∧ k.state = .escape ∧ k.identifier = {} ∧ InSequence k := by
  obtain ⟨m', hm', -, -, hsame⟩ := turn_processes (outputEngine true D inject) ESC last start current h.inSequence.flag
  have hended := processNonC1_ended D inject (h.resumed hm')
  have hprocess : processCharacter (outputEngine true D inject) ESC m' = processNonC1
    (outputEngine true D inject) ESC m' :=
    if_neg (by decide)
  rw [← hprocess] at hended
  rw [hsame (by rw [hended.2.1]; decide)]
  exact hended

theorem turn_backslash {last : Bool} {start current : Nat} {started : Bool} (h : Ended origin f started m.calls)
    (hstate : m.state = .escape) (hid : m.identifier = {}) (hm : InSequence m) :
    Ended origin f started (turn (outputEngine true D inject) 0x5C last start current m).2.calls := by
  obtain ⟨m', hm', -, hcalls, -⟩ := turn_processes (outputEngine true D inject) 0x5C last start current hm.flag
  obtain ⟨c, hc, hstep⟩ := processNonC1_backslash D inject (hm'.state.trans hstate) (hm'.identifier.trans hid)
  have hprocess : processCharacter (outputEngine true D inject) 0x5C m' =
      processNonC1 (outputEngine true D inject) 0x5C m' := if_neg (by decide)
  rw [hcalls, hprocess, hstep, hm'.calls]
  exact h.append hc

theorem Chain.ended {ending rest : List Turn} {final : Turn}
    (hchain : Chain (outputEngine true D inject) m (ending ++ rest)) (hend : Terminates ending)
    (hfinal : ending.getLast? = some final) (h : Sending origin f idSeen m) :
    Ended origin f (f.started idSeen) final.after.calls := by
  rcases ending with _ | ⟨t, _ | ⟨u, _ | ⟨v, ending⟩⟩⟩
  · cases hend
  · obtain rfl : t = final := Option.some.inj hfinal
    obtain ⟨hresumes, ⟨last, start, current, hafter⟩, -⟩ := hchain
    rw [hafter]
    exact turn_ended D inject (h.resumed (hresumes h.inSequence)) hend
  · obtain rfl : u = final := Option.some.inj hfinal
    obtain ⟨hesc, hbackslash⟩ := hend
    obtain ⟨hresumes, ⟨last, start, current, hafter⟩, hresumes', ⟨last', start', current', hafter'⟩, -⟩ := hchain
    rw [hesc] at hafter
    obtain ⟨hended, hstate, hid, hin⟩ := turn_escape D inject (h.resumed (hresumes h.inSequence))
    rw [← hafter] at hended hstate hid hin
    have hnext := hresumes' hin
    rw [hafter', hbackslash]
    rw [← hnext.calls] at hended
    exact turn_backslash D inject hended (hnext.state.trans hstate) (hnext.identifier.trans hid) (hnext.inSequence hin)
  · cases hend

end

/-! ## The whole string -/

theorem turn_dispatches {wch : Wchar} {last : Bool} {start current : Nat} (hm : readsIntroducer m.state = true)
    (h : (turn E wch last start current m).2.state = .dcsPassThrough) :
    ∃ k, (turn E wch last start current m).2 = actionDcsDispatch E wch k ∧ k.processingIndividually = true ∧
      k.isEngineForInput = m.isEngineForInput ∧ k.identifier = m.identifier ∧ k.parameters = m.parameters := by
  have hprocess {n : StateMachine} {start' : Nat} (hn : readsIntroducer n.state = true)
      (hstate : (processIndividually E wch last start' current n).2.state = .dcsPassThrough) :
      (processIndividually E wch last start' current n).2 = actionDcsDispatch E wch { n with
        runOffset := start', runSize := some (current - start' + 1), processingLastCharacter := last } := by
    unfold processIndividually at hstate ⊢
    dsimp only at hstate ⊢
    split at hstate
    · rename_i hground
      rw [show _ = VTStates.ground from hground] at hstate
      cases hstate
    · rename_i hground
      rw [if_neg hground]
      exact processCharacter_dispatches hn hstate
  by_cases hflag : m.processingIndividually = true
  · rw [turn_individually hflag] at h ⊢
    exact ⟨_, hprocess (by exact hm) h, hflag, rfl, rfl, rfl⟩
  · by_cases hact : isActionableFromGround wch = true
    · rw [turn_actionable hflag hact] at h ⊢
      have hkeep (n : StateMachine) (p : List Wchar) := notify_untouched (E := E) (m := n) (.printString p)
      refine ⟨_, hprocess ?_ h, rfl, (hkeep _ _).output, (hkeep _ _).identifier, (hkeep _ _).parameters⟩
      exact (congrArg readsIntroducer (hkeep _ _).state).trans hm
    · rw [turn_text hflag hact] at h
      rw [show m.state = .dcsPassThrough from h] at hm
      cases hm

section

variable (fontAccepts macroAccepts : VTParameters → Bool) (reply : List Call → Reply)
  (inject : List Wchar → StateMachine → StateMachine)

def forwardedAs (ps : VTParameters) : DcsActionCodes → Forwarded
  | .decdldDownloadDRCS => .font (isCharset96 ps)
  | _ => .plain

theorem conptyHandler_cases (ps : VTParameters) (code : DcsActionCodes) :
    conptyHandler fontAccepts macroAccepts ps code = none ∨
      conptyHandler fontAccepts macroAccepts ps code = some .engine ∨
      conptyHandler fontAccepts macroAccepts ps code = some ((forwardedAs ps code).handler false []) := by
  unfold conptyHandler
  cases code with
  | decdldDownloadDRCS =>
    dsimp only
    split
    · exact Or.inr (Or.inr rfl)
    · exact Or.inl rfl
  | decdmacDefineMacro =>
    dsimp only
    split
    · exact Or.inr (Or.inl rfl)
    · exact Or.inl rfl
  | decrstsRestoreTerminalState =>
    dsimp only
    split
    · exact Or.inr (Or.inr rfl)
    · exact Or.inl rfl
  | decrqssRequestSetting => exact Or.inr (Or.inl rfl)

theorem installHandler_forwards (f : Forwarded) (hm : InSequence m) :
    let k := installHandler E (some (f.handler false [])) m
    InSequence k ∧ (k.dcsStringHandler = none ∨ k.dcsStringHandler = some .engine ∨
      k.dcsStringHandler = some (f.handler false [])) := by
  have hkeep := flushToTerminal_untouched (E := E) (m := m)
  have hin : InSequence (flushToTerminal E m).2 := ⟨hkeep.flag.trans hm.flag, hkeep.output.trans hm.output⟩
  cases f with
  | plain =>
    refine ⟨⟨hin.flag, hin.output⟩, ?_⟩
    unfold Forwarded.handler installHandler
    dsimp only
    cases (flushToTerminal E m).1 with
    | true => exact Or.inr (Or.inr rfl)
    | false => exact Or.inl rfl
  | font wide =>
    refine ⟨⟨hin.flag, hin.output⟩, ?_⟩
    unfold Forwarded.handler installHandler
    dsimp only
    cases (flushToTerminal E m).1 with
    | true => exact Or.inr (Or.inr rfl)
    | false => exact Or.inr (Or.inl rfl)

theorem actionDcsDispatch_sending {wch : Wchar} {code : DcsActionCodes} (hm : InSequence m)
    (hid : m.identifier.finalize wch = code.code)
    (h : forwardsData (actionDcsDispatch (conptyEngine fontAccepts macroAccepts reply inject) wch m) = true) :
    let k := actionDcsDispatch (conptyEngine fontAccepts macroAccepts reply inject) wch m
    Sending k.calls (forwardedAs m.parameters code) false k := by
  let E := conptyEngine fontAccepts macroAccepts reply inject
  let n := (call E (.dcsDispatch (m.identifier.finalize wch) m.parameters) m).2
  have hn : InSequence n := ⟨hm.flag, hm.output⟩
  have hreply : (call E (.dcsDispatch (m.identifier.finalize wch) m.parameters) m).1.handler =
      conptyHandler fontAccepts macroAccepts m.parameters code := by
    simp [E, call, conptyEngine, outputEngine, conptyReply, hid, DcsActionCodes.ofId_code]
  have hdispatch : actionDcsDispatch E wch m =
      if (installHandler E (conptyHandler fontAccepts macroAccepts m.parameters code) n).dcsStringHandler.isSome then
        enterDcsPassThrough (installHandler E (conptyHandler fontAccepts macroAccepts m.parameters code) n)
      else enterDcsIgnore (installHandler E (conptyHandler fontAccepts macroAccepts m.parameters code) n) := by
    rw [← hreply]
    rfl
  intro k
  have hk : k = actionDcsDispatch E wch m := rfl
  have hforwards : forwardsData k = true := h
  rw [hdispatch] at hk
  rcases conptyHandler_cases fontAccepts macroAccepts m.parameters code with hnone | hengine | hforward
  · rw [hnone] at hk
    rw [hk] at hforwards
    cases hforwards
  · rw [hengine] at hk
    rw [hk] at hforwards
    cases hforwards
  · rw [hforward] at hk
    obtain ⟨hin, hkeep⟩ := installHandler_forwards (E := E) (forwardedAs m.parameters code) hn
    rcases hkeep with hnone | hengine | hsome
    · rw [hnone] at hk
      rw [hk] at hforwards
      cases hforwards
    · rw [hengine, Option.isSome_some, if_pos rfl] at hk
      have hhandler : k.dcsStringHandler = some .engine := by
        rw [hk]
        exact hengine
      unfold forwardsData at hforwards
      rw [hhandler, Bool.and_false] at hforwards
      cases hforwards
    · rw [hsome] at hk
      refine ⟨?_, ?_, ⟨[], ?_⟩, [], (append_nil _).symm, fun _ => rfl⟩
      · rw [hk]
        exact ⟨hin.flag, hin.output⟩
      · rw [hk]
        rfl
      · rw [hk]
        exact hsome

/-- A string is closed on the terminal just if it is no font that ends before its name. -/
theorem controlString_closed_iff (chunks : List (List Wchar)) (m : StateMachine) (a data ending b : List Turn)
    (opening final : Turn) (code : DcsActionCodes)
    (htrace : trace (conptyEngine fontAccepts macroAccepts reply inject) chunks m = a ++
      opening :: (data ++ (ending ++ b)))
    (hout : opening.before.isEngineForInput = false) (hreads : readsIntroducer opening.before.state = true)
    (hid : opening.before.identifier.finalize opening.wch = code.code) (hsent : forwardsData opening.after = true)
    (hdata : ∀ t ∈ data, endsString t.before t.wch = false) (hend : Terminates ending)
    (hfinal : ending.getLast? = some final) :
    (forwardedAs opening.before.parameters code).terminator <:+ passed (callsSince opening.after final.after) ↔
      (code = .decdldDownloadDRCS → ∃ t ∈ data, endsName t.wch = true) := by
  have hchain := trace_chain (E := conptyEngine fontAccepts macroAccepts reply inject) chunks m
  rw [htrace] at hchain
  obtain ⟨⟨last, start, current, hafter⟩, hchain⟩ := hchain.drop
  have hstate : opening.after.state = .dcsPassThrough := by
    unfold forwardsData at hsent
    simp only [Bool.and_eq_true, decide_eq_true_eq] at hsent
    exact hsent.1
  rw [hafter] at hstate
  obtain ⟨k, hk, hflag, hinput, hident, hparams⟩ := turn_dispatches hreads hstate
  rw [← hident] at hid
  rw [← hparams]
  rw [← hafter] at hk
  rw [hk] at hsent
  have hsending := actionDcsDispatch_sending fontAccepts macroAccepts reply inject ⟨hflag, hinput.trans hout⟩ hid hsent
  rw [← hk] at hsending
  obtain ⟨n, hn, hsent'⟩ := hchain.data hdata hsending
  obtain ⟨more, hmore, hended⟩ := hn.ended _ inject hend hfinal hsent'
  have hsince : callsSince opening.after final.after = more := by
    unfold callsSince
    rw [hmore, drop_left]
  rw [hsince]
  -- the string had started unless it is a font without a name
  have hstarted : (forwardedAs k.parameters code).started (false || data.any fun t => endsName t.wch) = true ↔
      (code = .decdldDownloadDRCS → ∃ t ∈ data, endsName t.wch = true) := by
    cases code <;> simp [forwardedAs, Forwarded.started]
  rw [← hstarted]
  cases hcase : (forwardedAs k.parameters code).started (false || data.any fun t => endsName t.wch) with
  | true =>
    rw [hcase] at hended
    exact iff_of_true hended rfl
  | false =>
    rw [hcase] at hended
    rw [hended]
    refine iff_of_false ?_ Bool.false_ne_true
    intro hsuffix
    have hnil := suffix_nil.mp hsuffix
    revert hnil
    cases forwardedAs k.parameters code <;> simp [Forwarded.terminator]

end

end

def plainConpty : Engine := conptyEngine (fun _ => true) (fun _ => true) (fun _ => {}) (fun _ m => m)

def colorTable : List (List Wchar) := [[ESC, 0x50, 0x32], [0x24, 0x70, 0x31], [CAN]]

theorem split_three (t : Turn) {n : Nat} {ts : List Turn} (h : ts.length = n + 3) :
    ts = ts.take n ++ ts.getD n t :: ([ts.getD (n + 1) t] ++ ([ts.getD (n + 2) t] ++ [])) := by
  induction n generalizing ts with
  | zero =>
    obtain ⟨a, b, c, rfl⟩ := length_eq_three.mp h
    rfl
  | succ n ih =>
    cases ts with
    | nil => cases h
    | cons u ts =>
      have hts : ts.length = n + 3 := by
        rw [length_cons] at h
        omega
      rw [take_succ_cons, getD_cons_succ, getD_cons_succ, getD_cons_succ, cons_append, ← ih hts]

def colorTurn (i : Nat) : Turn :=
  (trace plainConpty colorTable (new plainConpty false)).getD i ⟨new plainConpty false, 0, new plainConpty false⟩

theorem controlString_closed_colors : ∃ a opening t final, trace plainConpty colorTable (new plainConpty false) =
        a ++ opening :: ([t] ++ ([final] ++ [])) ∧
      forwardsData opening.after = true ∧ final.wch = CAN ∧
      [ESC, 0x5C] <:+ passed (callsSince opening.after final.after) := by
  have hlength : (trace plainConpty colorTable (new plainConpty false)).length = 4 + 3 := by decide +kernel
  have hsplit := split_three ⟨new plainConpty false, 0, new plainConpty false⟩ hlength
  have hout : (colorTurn 4).before.isEngineForInput = false := by decide +kernel
  have hreads : readsIntroducer (colorTurn 4).before.state = true := by decide +kernel
  have hid : (colorTurn 4).before.identifier.finalize (colorTurn 4).wch =
      DcsActionCodes.decrstsRestoreTerminalState.code := by decide +kernel
  have hsent : forwardsData (colorTurn 4).after = true := by decide +kernel
  have hdata : endsString (colorTurn 5).before (colorTurn 5).wch = false := by decide +kernel
  have hcan : (colorTurn 6).wch = CAN := by decide +kernel
  have hclosed := controlString_closed_iff (fun _ => true) (fun _ => true) (fun _ => {}) (fun _ m => m) colorTable
    (new plainConpty false) _ [colorTurn 5] [colorTurn 6] [] (colorTurn 4) (colorTurn 6) .decrstsRestoreTerminalState
    hsplit hout hreads hid hsent (fun t ht => by rw [mem_singleton.mp ht]; exact hdata) (Or.inr (Or.inl hcan)) rfl
  exact ⟨_, colorTurn 4, colorTurn 5, colorTurn 6, hsplit, hsent, hcan, hclosed.mpr fun h => by cases h⟩

/-- A font without a name: only the introducer is sent. -/
theorem controlString_open_font :
    let k := processString plainConpty [ESC, 0x50, 0x7B, ESC, 0x5C] (new plainConpty false)
    k.state = .ground ∧ passed k.calls = [ESC, 0x50, 0x7B] := by
  decide

end Terminal.Adapter
