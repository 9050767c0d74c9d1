import Terminal.Parser.Identifiers

/-!
# Controls in the introducer of a control string

A C0 control or DEL behind `ESC P` is ignored in all states but one: behind parameters it is taken
for the final character.
-/

namespace Terminal.Parser

open StateMachine List

/-! ## Introducers -/

def isInert (wch : Wchar) : Bool := isC0Code wch || isDelete wch

/-- The parameters and intermediates, and what ends them. -/
structure DcsIntroducer (body : List Wchar) (final : Wchar) : Prop where
  graphic : ∀ c ∈ body, 0x20 ≤ c.toNat ∧ c.toNat < 0x40
  unmarked : ∀ c ∈ body.head?, isCsiPrivateMarker c = false
  final : 0x40 ≤ final.toNat ∧ final.toNat < 0x7F ∨ body = [] ∧ isCsiPrivateMarker final = true

def InParams (body : List Wchar) :
    Prop := body ≠ [] ∧ ∀ c ∈ body, (isNumericParamValue c || isParameterDelimiter c) = true

def isStringData (wch : Wchar) : Bool := !(isEscape wch || isFromAnywhereChar wch || isC1ControlCharacter wch)

def feedAll (E : Engine) (string : List Wchar) (m : StateMachine) : StateMachine :=
  string.foldl (fun m wch => processCharacter E wch m) m

def isDcsCall : Call → Bool
  | .dcsDispatch _ _ | .stringHandler _ | .passThroughString _ => true
  | _ => false

def dcsText (body : List Wchar) (final : Wchar) (data : List Wchar) : List Wchar :=
  [ESC, 0x50] ++ (body ++ final :: data ++ [ESC, 0x5C])

def SameString (E : Engine) (m : StateMachine) (body : List Wchar) (final : Wchar) (data : List Wchar) : Prop :=
  (feedAll E (dcsText body final data) m).calls.filter isDcsCall =
    (feedAll E (dcsText (body.filter (!isInert ·)) final data) m).calls.filter isDcsCall

/-! ## Identifiers -/

def Laned (b : VTIDBuilder) : Prop := ∃ k ≤ 7, b.idShift = 8 * k ∧ b.idAccumulator.toNat < 256 ^ k

theorem Laned.addIntermediate {b : VTIDBuilder} (h : Laned b) {c : Wchar} (hc : c.toNat < 256) :
    Laned (b.addIntermediate c) := by
  obtain ⟨k, hk, hshift, hacc⟩ := h
  rcases Nat.lt_or_ge k 7 with hlt | hge
  · obtain ⟨hshift', -, hacc'⟩ := addIntermediate_idShift hlt hshift hacc hc
    exact ⟨k + 1, hlt, hshift', hacc'⟩
  · refine ⟨k, hk, ?_, ?_⟩ <;> simp [VTIDBuilder.addIntermediate, hshift, show 64 ≤ 8 * k + 8 by omega]

theorem Laned.finalize_ne {b : VTIDBuilder} (h : Laned b) {final c : Wchar}
    (hfinal : 0x3C ≤ final.toNat ∧ final.toNat < 0x7F)
    (hc : isInert c = true) : b.finalize final ≠ ({} : VTIDBuilder).finalize c := by
  obtain ⟨k, hk, hshift, hacc⟩ := h
  intro heq
  have hnat := congrArg BitVec.toNat heq
  rw [finalize_toNat hk hshift hacc, finalize_toNat (k := 0) (by omega) rfl (by decide)] at hnat
  have hpow : k = 0 ∨ 256 ≤ 256 ^ k := by
    rcases Nat.eq_zero_or_pos k with h0 | hpos
    · exact .inl h0
    · exact .inr (Nat.le_self_pow (by omega) 256)
  have hpacked : packed (8 - k) [] final = final.toNat := by
    unfold packed
    split
    · exact Nat.mod_eq_of_lt (by omega)
    · rfl
  simp only [isInert, isC0Code, isDelete, Bool.or_eq_true, decide_eq_true_eq, beq_iff_eq, Bool.and_eq_true] at hc
  rw [hpacked] at hnat
  simp only [packed, show ¬(8 - 0 ≤ 1) by omega, if_false] at hnat
  have hzero : (0 : BitVec 64).toNat = 0 := rfl
  rcases hpow with rfl | hpow
  · omega
  · have hlarge := Nat.mul_le_mul hpow hfinal.1
    omega

/-! ## Steps -/

section

variable {E : Engine} {m : StateMachine} {body data : List Wchar} {final c : Wchar}

def dispatched (m : StateMachine) : List Call :=
  m.calls.filter fun
    | .dcsDispatch _ _ => true
    | _ => false

theorem dispatched_rule (E : Engine) (l : List Call) :
    CallRule E (fun c => ∀ id ps, c ≠ .dcsDispatch id ps) (fun m => dispatched m = l) where
  call {c m} hc h := by
    rw [← h, dispatched, show (call E c m).2.calls = m.calls ++ [c] from rfl, filter_append]
    cases c with
    | dcsDispatch id ps => exact absurd rfl (hc id ps)
    | _ => exact append_nil _
  uncached h := h
  passes _ := fun _ _ => nofun
  inner {m m'} h houter := by
    have hcalls : m'.calls = m.calls := congrArg Prod.fst houter
    rw [← h, dispatched, dispatched, hcalls]
  puts _ := fun _ _ => nofun

theorem actionDcsDispatch_dispatched :
    dispatched (actionDcsDispatch E c m) = dispatched m ++ [.dcsDispatch (m.identifier.finalize c) m.parameters] ∧
      ((actionDcsDispatch E c m).state = .dcsPassThrough ∨ (actionDcsDispatch E c m).state = .dcsIgnore) := by
  have hcall : dispatched (call E (.dcsDispatch (m.identifier.finalize c) m.parameters) m).2 =
      dispatched m ++ [.dcsDispatch (m.identifier.finalize c) m.parameters] := filter_append ..
  have hinstall (handler : Option StringHandler) := (dispatched_rule E _).installHandler hcall handler
  unfold actionDcsDispatch
  dsimp only
  split
  · exact ⟨hinstall _, .inl rfl⟩
  · exact ⟨hinstall _, .inr rfl⟩

theorem processCharacter_data (hc : isStringData c = true) : processCharacter E c m = event E c m := by
  simp only [isStringData, Bool.not_or, Bool.and_eq_true, Bool.not_eq_true'] at hc
  exact processCharacter_event hc.2 hc.1.2 hc.1.1

theorem isStringData_of_graphic (hc : 0x20 ≤ c.toNat ∧ c.toNat < 0x80) : isStringData c = true := by
  simp [isStringData, isEscape, isFromAnywhereChar, isC1ControlCharacter]
  omega

theorem isStringData_of_inert (hc : isInert c = true) : isStringData c = true := by
  simp [isInert, isC0Code, isDelete, isStringData, isEscape, isFromAnywhereChar, isC1ControlCharacter] at *
  omega

theorem data_dispatched (hc : isStringData c = true) (hm : m.state = .dcsPassThrough ∨ m.state = .dcsIgnore) :
    dispatched (processCharacter E c m) = dispatched m ∧
      ((processCharacter E c m).state = .dcsPassThrough ∨ (processCharacter E c m).state = .dcsIgnore) := by
  rw [processCharacter_data hc]
  rcases hm with hs | hs
  · have hput : dispatched (callStringHandler E c m).2 = _ := (dispatched_rule E _).callStringHandler rfl
    unfold event eventDcsPassThrough
    rw [hs]
    dsimp only
    split_ifs
    · exact ⟨hput, .inl (callStringHandler_keeps.1.trans hs)⟩
    · exact ⟨hput, .inr rfl⟩
    · exact ⟨rfl, .inl hs⟩
  · unfold event
    rw [hs]
    exact ⟨rfl, .inr hs⟩

theorem string_dispatched (hdata : ∀ c ∈ data, isStringData c = true)
    (hm : m.state = .dcsPassThrough ∨ m.state = .dcsIgnore) :
    dispatched (feedAll E (data ++ [ESC, 0x5C]) m) = dispatched m := by
  induction data generalizing m with
  | nil =>
    have hrule := dispatched_rule E (dispatched m)
    have hesc : processCharacter E ESC m = enterEscape E (actionInterrupt E m) := by
      rcases hm with hs | hs <;> simp [processCharacter, processNonC1, isC1ControlCharacter,
        isFromAnywhereChar, isEscape, ESC, hs]
    have hentered : dispatched (enterEscape E (actionInterrupt E m)) = dispatched m :=
      hrule.actionClear (hrule.inner (hrule.actionInterrupt rfl) rfl) (by simp)
    have hstate : (enterEscape E (actionInterrupt E m)).state = .escape := (notify_untouched _).state
    show dispatched (processCharacter E 0x5C (processCharacter E ESC m)) = _
    rw [hesc, processCharacter_event (by decide) (by decide) (by decide), event_eq_run E (by simp [beginsAnew, hstate]),
      act, hstate]
    generalize enterEscape E (actionInterrupt E m) = k at hentered hstate ⊢
    have hact : escapeAct 0x5C k = .finish .escDispatch ∨ escapeAct 0x5C k = .finish .vt52EscDispatch := by
      cases hansi : k.parserMode.ansi <;> simp [escapeAct, hansi, isC0Code, isDelete, isIntermediate, isCsiIndicator,
        isOscIndicator, isSs3Indicator, isDcsIndicator, isSosIndicator, isPmIndicator,
          isApcIndicator, isVt52CursorAddress]
    rcases hact with hact | hact <;> rw [hact] <;>
      exact hrule.inner (hrule.notify (by simp [Ending.call]) hentered) rfl
  | cons c data ih =>
    obtain ⟨hc, hstate⟩ := data_dispatched (E := E) (hdata c mem_cons_self) hm
    exact (ih (fun d hd => hdata d (mem_cons_of_mem c hd)) hstate).trans hc

/-! ## The introducer -/

structure Reads (body : List Wchar) (m : StateMachine) : Prop where
  state : m.state = .dcsEntry ∧ body = [] ∨ m.state = .dcsParam ∧ InParams body ∨
    (m.state = .dcsIntermediate ∨ m.state = .dcsIgnore) ∧ body ≠ [] ∧ ¬InParams body
  laned : Laned m.identifier
  empty : m.state = .dcsEntry ∨ m.state = .dcsParam → m.identifier = {}

theorem inParams_append : InParams (body ++ [c]) ↔
    (body = [] ∨ InParams body) ∧ (isNumericParamValue c || isParameterDelimiter c) = true := by
  unfold InParams
  cases body <;> grind

theorem Reads.of_rest (hstate : m.state = .dcsIntermediate ∨ m.state = .dcsIgnore) (hlaned : Laned m.identifier)
    (hne : body ≠ []) (hnot : ¬InParams body) : Reads body m := by
  refine ⟨.inr (.inr ⟨hstate, hne, hnot⟩), hlaned, fun h => ?_⟩
  rcases hstate with hs | hs <;> rw [hs] at h <;> simp at h

theorem Reads.next (h : Reads body m) (hc : 0x20 ≤ c.toNat ∧ c.toNat < 0x40)
    (hmarker : body = [] → isCsiPrivateMarker c = false) :
    Reads (body ++ [c]) (processCharacter E c m) ∧ dispatched (processCharacter E c m) = dispatched m := by
  obtain ⟨hc0, -, -, -, hdel⟩ := plain_of_le hc.1 (by omega)
  have hinter : isIntermediate c = true → (isNumericParamValue c || isParameterDelimiter c) = false := by
    simp [isIntermediate, isNumericParamValue, isParameterDelimiter]
    omega
  have hinvalid : isCsiInvalid c = true → (isNumericParamValue c || isParameterDelimiter c) = false := by
    simp [isCsiInvalid, isNumericParamValue, isParameterDelimiter]
    omega
  have hadd := h.laned.addIntermediate (c := c) (by omega)
  have hne : body ++ [c] ≠ [] := by simp
  have hrest (hparam : (isNumericParamValue c || isParameterDelimiter c) = false) : ¬InParams (body ++ [c]) := by
    simp [inParams_append, hparam]
  rw [processCharacter_data (isStringData_of_graphic (by omega))]
  rcases h.state with ⟨hs, hbody⟩ | ⟨hs, hin⟩ | ⟨hs, hbody, hnot⟩
  · rw [event, hs]
    simp only [eventDcsEntry, hc0, hdel, Bool.false_eq_true, if_false]
    split_ifs with hinv hparam hint
    · exact ⟨.of_rest (.inr rfl) h.laned hne (hrest (hinvalid hinv)), rfl⟩
    · exact ⟨⟨.inr (.inl ⟨rfl, inParams_append.2 ⟨.inl hbody, hparam⟩⟩), h.laned, fun _ => h.empty (.inl hs)⟩, rfl⟩
    · exact ⟨.of_rest (.inl rfl) hadd hne (hrest (hinter hint)), rfl⟩
    · have := hmarker hbody
      simp [isCsiPrivateMarker, isIntermediate, isNumericParamValue, isParameterDelimiter, isCsiInvalid] at *
      omega
  · rw [event, hs]
    simp only [eventDcsParam, actionIgnore, ite_self]
    split_ifs with hparam hint hinv
    · exact ⟨⟨.inr (.inl ⟨hs, inParams_append.2 ⟨.inr hin, hparam⟩⟩), h.laned, fun _ => h.empty (.inr hs)⟩, rfl⟩
    · exact ⟨.of_rest (.inl rfl) hadd hne (hrest (hinter hint)), rfl⟩
    · exact ⟨.of_rest (.inr rfl) h.laned hne (hrest (by simpa using hparam)), rfl⟩
    · simp [isParameterInvalid, isCsiPrivateMarker, isIntermediate, isNumericParamValue,
        isParameterDelimiter, isCsiInvalid] at *
      omega
  · have hnot' : ¬InParams (body ++ [c]) := by
      rw [inParams_append]
      exact fun h => h.1.elim hbody hnot
    rcases hs with hs | hs
    · rw [event, hs]
      simp only [eventDcsIntermediate, hc0, hdel, Bool.false_eq_true, if_false]
      split_ifs with hint hinv
      · exact ⟨.of_rest (.inl hs) hadd hne hnot', rfl⟩
      · exact ⟨.of_rest (.inr rfl) h.laned hne hnot', rfl⟩
      · simp [isIntermediateInvalid, isCsiPrivateMarker, isIntermediate, isNumericParamValue, isParameterDelimiter,
          isCsiInvalid] at *
        omega
    · rw [event, hs]
      exact ⟨.of_rest (.inr hs) h.laned hne hnot', rfl⟩

theorem Reads.inert (h : Reads body m) (hc : isInert c = true) :
    processCharacter E c m = m ∧ ¬InParams body ∨ processCharacter E c m = actionDcsDispatch E c m ∧ InParams body := by
  have hinert : isC0Code c = true ∨ isDelete c = true := by simpa [isInert] using hc
  rw [processCharacter_data (isStringData_of_inert hc)]
  rcases h.state with ⟨hs, rfl⟩ | ⟨hs, hin⟩ | ⟨hs | hs, -, hnot⟩
  · refine .inl ⟨?_, fun h => h.1 rfl⟩
    rcases hinert with h0 | h0 <;> simp [event, hs, eventDcsEntry, h0, actionIgnore]
  · refine .inr ⟨?_, hin⟩
    have hother : (isNumericParamValue c || isParameterDelimiter c) = false ∧ isIntermediate c = false ∧
        isParameterInvalid c = false := by
      simp [isC0Code, isDelete, isNumericParamValue, isParameterDelimiter, isIntermediate,
        isParameterInvalid, isCsiInvalid, isCsiPrivateMarker] at *
      omega
    simp [event, hs, eventDcsParam, hother, actionIgnore]
  · refine .inl ⟨?_, hnot⟩
    rcases hinert with h0 | h0 <;> simp [event, hs, eventDcsIntermediate, h0, actionIgnore]
  · exact .inl ⟨by rw [event, hs]; rfl, hnot⟩

theorem Reads.dispatches (h : Reads body m) (hbody : body ≠ []) {rest : List Wchar}
    (hrest : ∀ c ∈ rest, 0x20 ≤ c.toNat ∧ c.toNat < 0x40) (hfinal : 0x40 ≤ final.toNat ∧ final.toNat < 0x7F)
    (hdata : ∀ c ∈ data, isStringData c = true) (hc : isInert c = true) (ps : VTParameters) :
    dispatched (feedAll E (rest ++ final :: data ++ [ESC, 0x5C]) m) ≠
      dispatched m ++ [.dcsDispatch (({} : VTIDBuilder).finalize c) ps] := by
  induction rest generalizing body m with
  | nil =>
    have hfinaldata := isStringData_of_graphic (c := final) (by omega)
    have hdispatch (hact : processCharacter E final m = actionDcsDispatch E final m) :
        dispatched (feedAll E (final :: data ++ [ESC, 0x5C]) m) ≠
          dispatched m ++ [.dcsDispatch (({} : VTIDBuilder).finalize c) ps] := by
      obtain ⟨hlog, hstate⟩ := actionDcsDispatch_dispatched (E := E) (c := final) (m := m)
      show dispatched (feedAll E (data ++ [ESC, 0x5C]) (processCharacter E final m)) ≠ _
      rw [hact, string_dispatched hdata hstate, hlog]
      intro heq
      have hid : m.identifier.finalize final = ({} : VTIDBuilder).finalize c ∧ m.parameters = ps := by simpa using heq
      exact h.laned.finalize_ne (by omega) hc hid.1
    have hother : isC0Code final = false ∧ isDelete final = false ∧ isIntermediate final = false ∧
        (isNumericParamValue final || isParameterDelimiter final) = false ∧ isParameterInvalid final = false ∧
        isIntermediateInvalid final = false := by
      simp [isC0Code, isDelete, isNumericParamValue, isParameterDelimiter, isIntermediate,
        isParameterInvalid, isCsiInvalid, isCsiPrivateMarker, isIntermediateInvalid]
      omega
    rcases h.state with ⟨-, hnil⟩ | ⟨hs, -⟩ | ⟨hs | hs, -⟩
    · exact absurd hnil hbody
    · exact hdispatch (by rw [processCharacter_data hfinaldata]; simp [event, hs, eventDcsParam, hother])
    · exact hdispatch (by rw [processCharacter_data hfinaldata]; simp [event, hs, eventDcsIntermediate, hother])
    · rw [string_dispatched (by simpa [hfinaldata] using hdata) (.inr hs)]
      simp
  | cons d rest ih =>
    obtain ⟨hnext, hlog⟩ := h.next (E := E) (hrest d mem_cons_self) fun h => absurd h hbody
    rw [← hlog]
    exact ih hnext (by simp) fun x hx => hrest x (mem_cons_of_mem d hx)

/-- A control behind parameters, some of which may have come before. -/
def Interrupts (body inserted : List Wchar) : Prop :=
  ∃ pre c post, inserted = pre ++ c :: post ∧ isInert c = true ∧ InParams (body ++ pre.filter (!isInert ·))

theorem interrupts_cons {inserted : List Wchar} : Interrupts body (c :: inserted) ↔
    isInert c = true ∧ InParams body ∨ Interrupts (body ++ [c].filter (!isInert ·)) inserted := by
  constructor
  · rintro ⟨pre, d, post, heq, hd, hin⟩
    cases pre with
    | nil =>
      obtain ⟨rfl, -⟩ := cons.inj heq
      exact .inl ⟨hd, by simpa using hin⟩
    | cons x pre =>
      obtain ⟨rfl, rfl⟩ := cons.inj heq
      refine .inr ⟨pre, d, post, rfl, hd, ?_⟩
      rwa [append_assoc, ← filter_append]
  · rintro (⟨hc, hin⟩ | ⟨pre, d, post, rfl, hd, hin⟩)
    · exact ⟨[], c, inserted, rfl, hc, by simpa using hin⟩
    · refine ⟨c :: pre, d, post, rfl, hd, ?_⟩
      rwa [append_assoc, ← filter_append] at hin

theorem Reads.insertions {inserted : List Wchar} (h : Reads body m)
    (hintro : DcsIntroducer (body ++ inserted.filter (!isInert ·)) final) (hdata : ∀ c ∈ data, isStringData c = true) :
    ¬Interrupts body inserted ∧ feedAll E inserted m = feedAll E (inserted.filter (!isInert ·)) m ∨
    Interrupts body inserted ∧ dispatched (feedAll E (inserted ++ final :: data ++ [ESC, 0x5C]) m) ≠
      dispatched (feedAll E (inserted.filter (!isInert ·) ++ final :: data ++ [ESC, 0x5C]) m) := by
  induction inserted generalizing body m with
  | nil =>
    refine .inl ⟨?_, rfl⟩
    rintro ⟨pre, c, post, heq, -⟩
    simp at heq
  | cons c inserted ih =>
    rw [interrupts_cons]
    by_cases hc : isInert c = true
    · have hfilter (l : List Wchar) : (c :: l).filter (!isInert ·) = l.filter (!isInert ·) := by simp [hc]
      rw [hfilter] at hintro ⊢
      rw [hfilter, filter_nil, append_nil]
      rcases h.inert (E := E) hc with ⟨hstep, hnot⟩ | ⟨hstep, hin⟩
      · have hsame (l : List Wchar) : feedAll E (c :: l) m = feedAll E l m := by
          show feedAll E l (processCharacter E c m) = _
          rw [hstep]
        rw [hsame, cons_append, cons_append, hsame]
        rcases ih h hintro with ⟨hno, hsame⟩ | ⟨hyes, hdiff⟩
        · exact .inl ⟨fun h => h.elim (fun h => hnot h.2) hno, hsame⟩
        · exact .inr ⟨.inr hyes, hdiff⟩
      · refine .inr ⟨.inl ⟨hc, hin⟩, ?_⟩
        have hgraphic := hintro.graphic
        have hrest : ∀ x ∈ inserted.filter (!isInert ·), 0x20 ≤ x.toNat ∧ x.toNat < 0x40 := fun x hx =>
          hgraphic x (mem_append_right _ hx)
        have hfinal := hintro.final.resolve_right fun h => hin.1 (append_eq_nil_iff.1 h.1).1
        obtain ⟨hlog, hstate⟩ := actionDcsDispatch_dispatched (E := E) (c := c) (m := m)
        have hother := h.dispatches (E := E) hin.1 hrest hfinal hdata hc m.parameters
        have hdatas : ∀ x ∈ inserted ++ final :: data, isStringData x = true := by
          intro x hx
          rcases mem_append.1 hx with hx | hx
          · by_cases hinert : isInert x = true
            · exact isStringData_of_inert hinert
            · have := hrest x (mem_filter.2 ⟨hx, by simpa using hinert⟩)
              exact isStringData_of_graphic (by omega)
          · rcases mem_cons.1 hx with rfl | hx
            · exact isStringData_of_graphic (by omega)
            · exact hdata x hx
        show dispatched (feedAll E (inserted ++ final :: data ++ [ESC, 0x5C]) (processCharacter E c m)) ≠ _
        rw [hstep, string_dispatched hdatas hstate, hlog, h.empty (.inr ?_)]
        · exact hother.symm
        · rcases h.state with ⟨-, hnil⟩ | ⟨hs, -⟩ | ⟨-, -, hnot⟩
          · exact absurd hnil hin.1
          · exact hs
          · exact absurd hin hnot
    · have hfilter (l : List Wchar) : (c :: l).filter (!isInert ·) = c :: l.filter (!isInert ·) := by simp [hc]
      rw [hfilter] at hintro ⊢
      rw [hfilter]
      have hc' := hintro.graphic c (by simp)
      obtain ⟨hnext, -⟩ := h.next (E := E) hc' fun hnil => hintro.unmarked c (by simp [hnil])
      rcases ih hnext (by simpa using hintro) with ⟨hno, hsame⟩ | ⟨hyes, hdiff⟩
      · exact .inl ⟨fun h => h.elim (fun h => hc h.1) hno, hsame⟩
      · exact .inr ⟨.inr hyes, hdiff⟩

/-- Controls make no difference unless behind parameters alone. -/
theorem sameString_iff (hE : Passive E) (hansi : m.parserMode.ansi = true) {inserted : List Wchar}
    (hintro : DcsIntroducer (inserted.filter (!isInert ·)) final) (hdata : ∀ c ∈ data, isStringData c = true) :
    SameString E m inserted final data ↔ ¬Interrupts [] inserted := by
  obtain ⟨k, -, hentered⟩ := @introduced _ _ 0x50 hE hansi .dcsEntry rfl
    (fun k hansi => by simp [escapeAct, isC0Code, isDelete, isIntermediate, isCsiIndicator,
      isOscIndicator, isSs3Indicator, isDcsIndicator, hansi]) (by decide)
  have htext (body : List Wchar) : feedAll E (dcsText body final data) m =
      feedAll E (body ++ final :: data ++ [ESC, 0x5C]) (actionClear E { k with state := .dcsEntry }) := by
    rw [← hentered]
    rfl
  have hdispatched (m : StateMachine) : dispatched m = ((m.calls.filter isDcsCall).filter fun
      | .dcsDispatch _ _ => true
      | _ => false) := by
    rw [filter_filter]
    exact filter_congr fun c _ => by cases c <;> rfl
  have hreads : Reads [] (actionClear E { k with state := .dcsEntry }) := by
    have hid : (actionClear E { k with state := .dcsEntry }).identifier = {} := (notify_untouched _).identifier
    exact ⟨.inl ⟨(notify_untouched _).state, rfl⟩, hid ▸ ⟨0, by omega, rfl, by decide⟩, fun _ => hid⟩
  unfold SameString
  rw [htext, htext]
  rcases hreads.insertions (E := E) hintro hdata with ⟨hno, hsame⟩ | ⟨hyes, hdiff⟩
  · refine iff_of_true ?_ hno
    unfold feedAll at hsame ⊢
    simp only [foldl_append, hsame]
  · refine iff_of_false (fun heq => hdiff ?_) (not_not_intro hyes)
    rw [hdispatched, heq, ← hdispatched]

end

theorem sameString_iff_plain : SameString (outputEngine false (fun _ => {}) fun _ m => m) { isEngineForInput := false }
    [0x0A] 0x71 [0x61] := by
  have hnil : [(0x0A : Wchar)].filter (!isInert ·) = [] := by decide
  have hintro : DcsIntroducer ([(0x0A : Wchar)].filter (!isInert ·)) 0x71 := by
    rw [hnil]
    exact ⟨by simp, by simp, .inl (by decide)⟩
  have hdata : ∀ c ∈ [(0x61 : Wchar)], isStringData c = true := by
    simp [isStringData, isEscape, isFromAnywhereChar, isC1ControlCharacter]
  refine (sameString_iff passive_outputEngine rfl hintro hdata).2 ?_
  rw [interrupts_cons]
  rintro (⟨-, hin⟩ | ⟨pre, c, post, heq, -⟩)
  · exact hin.1 rfl
  · simp at heq

/-- The line feed in `1 LF q` is dispatched. -/
theorem not_sameString_param : ¬SameString (outputEngine false (fun _ => {}) fun _ m => m) { isEngineForInput := false }
    [0x31, 0x0A] 0x71 [0x61] := by
  unfold SameString
  decide

end Terminal.Parser
