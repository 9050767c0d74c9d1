import Mathlib.Data.List.TakeWhile
import Terminal.Parser.Chunks

/-!
# Control sequences

The characters between `ESC [` and the final one form a small language. A body of the language is
dispatched once, any other is dropped.
-/

namespace Terminal.Parser

open StateMachine List

/-! ## The language -/

def isFinal (wch : Wchar) : Bool := 0x40 ≤ wch.toNat && !isC1ControlCharacter wch && !isDelete wch

def isSkipped (wch : Wchar) : Bool := isC0Code wch || isDelete wch || isC1ControlCharacter wch

def isParam (wch : Wchar) : Bool := isNumericParamValue wch || isParameterDelimiter wch

/-- `[<=>?]? [0-9;]* [0x20-0x2F]*` -/
structure CsiBody (body marker params inter : List Wchar) : Prop where
  split : body = marker ++ (params ++ inter)
  single : marker.length ≤ 1
  marker : ∀ c ∈ marker, isCsiPrivateMarker c = true
  params : ∀ c ∈ params, isParam c = true
  inter : ∀ c ∈ inter, isIntermediate c = true

theorem CsiBody.range {body marker params inter : List Wchar} (h : CsiBody body marker params inter) :
    ∀ c ∈ body, 0x20 ≤ c.toNat ∧ c.toNat < 0x40 := by
  intro c hc
  rw [h.split, mem_append, mem_append] at hc
  rcases hc with hc | hc | hc
  · have := h.marker c hc
    simp [isCsiPrivateMarker] at this
    omega
  · have := h.params c hc
    simp [isParam, isNumericParamValue, isParameterDelimiter] at this
    omega
  · have := h.inter c hc
    simp [isIntermediate] at this
    omega

def decimal (digits : List Wchar) : Nat := digits.foldl (fun v d => 10 * v + (d.toNat - 0x30)) 0

def parameterOf (field : List Wchar) : VTParameter :=
  if field.isEmpty then {} else { value := (min (decimal field) 65535 : Nat) }

variable (params : List Wchar)

/-- The first 32 fields between the semicolons. -/
def parametersOf : VTParameters :=
  if params.isEmpty then [] else ((params.splitOn 0x3B).take 32).map parameterOf

def identifierOf (chars : List Wchar) : VTIDBuilder := chars.foldl VTIDBuilder.addIntermediate {}

/-! ## Parameters -/

theorem accumulateTo_min (n : Nat) {d : Wchar} (hd : isNumericParamValue d = true) :
    accumulateTo d (min n 65535 : Nat) = (min (10 * n + (d.toNat - 0x30)) 65535 : Nat) := by
  simp only [isNumericParamValue, Bool.and_eq_true, decide_eq_true_eq] at hd
  unfold accumulateTo maxParameterValue
  simp only
  split <;> omega

theorem foldl_accumulateTo (digits : List Wchar) (hd : ∀ d ∈ digits, isNumericParamValue d = true) (n : Nat) :
    digits.foldl (fun v d => accumulateTo d v) (min n 65535 : Nat) =
      (min (digits.foldl (fun v d => 10 * v + (d.toNat - 0x30)) n) 65535 : Nat) := by
  induction digits generalizing n with
  | nil => rfl
  | cons d digits ih =>
    rw [foldl_cons, accumulateTo_min n (hd d mem_cons_self)]
    exact ih (fun x hx => hd x (mem_cons_of_mem _ hx)) _

def extendParameter (p : VTParameter) (digits : List Wchar) : VTParameter :=
  if digits.isEmpty then p else { value := digits.foldl (fun v d => accumulateTo d v) (p.valueOr 0) }

theorem extendParameter_omitted {field : List Wchar} (h : ∀ d ∈ field, isNumericParamValue d = true) :
    extendParameter {} field = parameterOf field := by
  unfold extendParameter parameterOf
  split
  · rfl
  · congr 1
    exact foldl_accumulateTo field h 0

theorem extendParameter_cons (p : VTParameter) {d : Wchar} (hd : isNumericParamValue d = true) (digits : List Wchar) :
    extendParameter p (d :: digits) = extendParameter { value := accumulateTo d (p.valueOr 0) } digits := by
  have hv : 0 ≤ p.valueOr 0 := by
    unfold VTParameter.valueOr
    split <;> omega
  have hpos : 0 ≤ accumulateTo d (p.valueOr 0) := by
    simp only [isNumericParamValue, Bool.and_eq_true, decide_eq_true_eq] at hd
    unfold accumulateTo maxParameterValue
    simp only
    split <;> omega
  unfold extendParameter
  cases digits with
  | nil => rfl
  | cons e digits =>
    have hval : VTParameter.valueOr { value := accumulateTo d (p.valueOr 0) } 0 = accumulateTo d (p.valueOr 0) :=
      if_neg (by simp only; omega)
    rw [hval]
    rfl

def extendFields (p : VTParameter) (fields : List (List Wchar)) : List VTParameter :=
  match fields with
  | [] => [p]
  | field :: more => extendParameter p field :: more.map (extendParameter {})

theorem nextParams_limit (ps : VTParameters) :
    params.foldl (fun s c => nextParams c s.1 s.2) (ps, true) = (ps, true) := by
  induction params with
  | nil => rfl
  | cons c params ih => exact ih

theorem foldl_nextParams (h : ∀ c ∈ params, isParam c = true) (ps : VTParameters) (p : VTParameter)
    (hlen : ps.length < 32) :
    (params.foldl (fun s c => nextParams c s.1 s.2) (ps ++ [p], false)).1 =
      (ps ++ extendFields p (params.splitOn 0x3B)).take 32 := by
  induction params generalizing ps p with
  | nil =>
    exact (take_of_length_le (by simp; omega)).symm
  | cons c params ih =>
    have hrest := fun x hx => h x (mem_cons_of_mem _ hx)
    rw [foldl_cons, splitOn_cons_eq_if_modifyHead]
    by_cases hc : isParameterDelimiter c = true
    · have hbeq : (c == 0x3B) = true := by
        simp only [isParameterDelimiter, beq_iff_eq] at hc ⊢
        exact BitVec.eq_of_toNat_eq hc
      obtain ⟨field, more, hsplit⟩ := exists_cons_of_ne_nil (splitOn_ne_nil 0x3B params)
      rw [if_pos hbeq]
      by_cases hfull : ps.length + 1 = 32
      · have hstep : nextParams c (ps ++ [p]) false = (ps ++ [p], true) := by
          simp [nextParams, hc, maxParameterCount, hfull]
        simp only [hstep, nextParams_limit]
        rw [show ps ++ extendFields p ([] :: params.splitOn 0x3B) =
          (ps ++ [p]) ++ (params.splitOn 0x3B).map (extendParameter {}) by simp [extendFields, extendParameter]]
        rw [take_append_of_le_length (by simp [hfull]), take_of_length_le (by simp [hfull])]
      · have hstep : nextParams c (ps ++ [p]) false = ((ps ++ [p]) ++ [({} : VTParameter)], false) := by
          have : ¬32 ≤ ps.length + 1 := by omega
          simp [nextParams, hc, maxParameterCount, this]
        simp only [hstep]
        rw [ih hrest (ps ++ [p]) {} (by simp; omega), hsplit]
        simp [extendFields, extendParameter]
    · have hnum : isNumericParamValue c = true := by
        have := h c mem_cons_self
        simpa [isParam, hc] using this
      have hbeq : ¬(c == 0x3B) = true := by
        intro heq
        rw [beq_iff_eq.mp heq] at hc
        exact hc (by decide)
      have hstep : nextParams c (ps ++ [p]) false = (ps ++ [{ value := accumulateTo c (p.valueOr 0) }], false) := by
        simp [nextParams, hc, accumulateLast]
      obtain ⟨field, more, hsplit⟩ := exists_cons_of_ne_nil (splitOn_ne_nil 0x3B params)
      simp only [hstep, if_neg hbeq]
      rw [ih hrest ps _ hlen, hsplit, modifyHead_cons]
      simp only [extendFields, extendParameter_cons p hnum]

theorem mem_splitOn {x : Wchar} {l field : List Wchar} (h : field ∈ l.splitOn x) {c : Wchar} (hc : c ∈ field) :
    c ∈ l ∧ c ≠ x := by
  induction l generalizing field with
  | nil =>
    rw [splitOn_nil, mem_singleton] at h
    simp [h] at hc
  | cons y l ih =>
    rw [splitOn_cons_eq_if_modifyHead] at h
    obtain ⟨first, more, hsplit⟩ := exists_cons_of_ne_nil (splitOn_ne_nil x l)
    rw [hsplit] at ih h
    split at h
    · rcases mem_cons.mp h with rfl | h
      · simp at hc
      · exact ⟨mem_cons_of_mem _ (ih h hc).1, (ih h hc).2⟩
    · rename_i hy
      rcases mem_cons.mp h with rfl | h
      · rcases mem_cons.mp hc with rfl | hc
        · exact ⟨mem_cons_self, by simpa using hy⟩
        · exact ⟨mem_cons_of_mem _ (ih mem_cons_self hc).1, (ih mem_cons_self hc).2⟩
      · exact ⟨mem_cons_of_mem _ (ih (mem_cons_of_mem _ h) hc).1, (ih (mem_cons_of_mem _ h) hc).2⟩

theorem foldl_nextParams_spec (h : ∀ c ∈ params, isParam c = true) :
    (params.foldl (fun s c => nextParams c s.1 s.2) ([], false)).1 = parametersOf params := by
  cases params with
  | nil => rfl
  | cons c params =>
    -- The first character opens the first parameter, as if it had been there before.
    have hopen : nextParams c [] false = nextParams c ([] ++ [({} : VTParameter)]) false := by
      simp [nextParams]
    rw [foldl_cons, hopen]
    have hall := foldl_nextParams (c :: params) h [] {} (by decide)
    rw [foldl_cons] at hall
    rw [hall]
    have hfields : ∀ field ∈ (c :: params).splitOn 0x3B, extendParameter {} field = parameterOf field := by
      intro field hfield
      apply extendParameter_omitted
      intro d hd
      obtain ⟨hmem, hne⟩ := mem_splitOn hfield hd
      have hparam := h d hmem
      simp only [isParam, isParameterDelimiter, Bool.or_eq_true, beq_iff_eq] at hparam
      rcases hparam with hnum | hdelim
      · exact hnum
      · exact absurd (BitVec.eq_of_toNat_eq hdelim) hne
    obtain ⟨first, more, hsplit⟩ := exists_cons_of_ne_nil (splitOn_ne_nil 0x3B (c :: params))
    rw [parametersOf, map_take]
    congr 1
    rw [hsplit] at hfields ⊢
    exact map_congr_left hfields

/-! ## The body -/

def scan (m : StateMachine) (wch : Wchar) : StateMachine :=
  match m.state with
  | .csiEntry =>
    if isIntermediate wch then enterCsiIntermediate (actionCollect wch m)
    else if isCsiInvalid wch then enterCsiIgnore m
    else if isParam wch then enterCsiParam (actionParam wch m)
    else enterCsiParam (actionCollect wch m)
  | .csiParam =>
    if isParam wch then actionParam wch m
    else if isIntermediate wch then enterCsiIntermediate (actionCollect wch m)
    else enterCsiIgnore m
  | .csiIntermediate => if isIntermediate wch then actionCollect wch m else enterCsiIgnore m
  | _ => m

def inCsi (m : StateMachine) : Prop :=
  m.state = .csiEntry ∨ m.state = .csiParam ∨ m.state = .csiIntermediate ∨ m.state = .csiIgnore

structure Inside (m : StateMachine) (wch : Wchar) : Prop where
  final : isFinal wch = false
  anywhere : isFromAnywhereChar wch = false
  escape : isEscape wch = false
  c1 : m.parserMode.parsesC1 = true → isC1ControlCharacter wch = false

variable (body : List Wchar)

section

variable {E : Engine} {m n : StateMachine} {wch : Wchar}

theorem Inside.range (h : Inside m wch) (hs : isSkipped wch = false) : 0x20 ≤ wch.toNat ∧ wch.toNat < 0x40 := by
  have hf := h.final
  have ha := h.anywhere
  have he := h.escape
  simp [isFinal, isSkipped, isC0Code, isC1ControlCharacter, isDelete, isFromAnywhereChar, isEscape] at *
  omega

theorem processCharacter_event (h1 : isC1ControlCharacter wch = false) (h2 : isFromAnywhereChar wch = false)
    (h3 : isEscape wch = false) : processCharacter E wch m = event E wch m := by
  simp [processCharacter, processNonC1, h1, h2, h3]

theorem processCharacter_scan (hm : inCsi m) (h : 0x20 ≤ wch.toNat ∧ wch.toNat < 0x40) :
    processCharacter E wch m = scan m wch := by
  obtain ⟨h0, h1, h2, h3, h4⟩ := plain_of_le h.1 (by omega)
  rw [processCharacter_event h1 h2 h3]
  -- Every code unit from 0x20 to 0x3F is in one of these five classes.
  have hclass : isIntermediate wch = true ∨ isCsiInvalid wch = true ∨ isNumericParamValue wch = true ∨
      isParameterDelimiter wch = true ∨ isCsiPrivateMarker wch = true := by
    simp [isIntermediate, isCsiInvalid, isNumericParamValue, isParameterDelimiter, isCsiPrivateMarker]
    omega
  rcases hm with hs | hs | hs | hs
  · simp only [event, eventCsiEntry, scan, isParam]
    split_ifs <;> simp_all
  · simp only [event, eventCsiParam, scan, isParam, isParameterInvalid]
    split_ifs <;> simp_all
  · simp only [event, eventCsiIntermediate, scan, h4, isIntermediateInvalid]
    split_ifs <;> simp_all
  · simp only [event, hs, eventCsiIgnore, scan, isIntermediateInvalid]
    split_ifs <;> simp_all [actionIgnore]

theorem scan_inCsi (hm : inCsi m) : inCsi (scan m wch) := by
  unfold inCsi at *
  rcases hm with hs | hs | hs | hs
  · simp only [scan, hs]
    split_ifs <;> simp [enterCsiIntermediate, enterCsiIgnore, enterCsiParam]
  · simp only [scan]
    split_ifs <;> simp [enterCsiIntermediate, enterCsiIgnore, actionParam, hs]
  · simp only [scan, hs]
    split_ifs <;> simp [enterCsiIgnore, actionCollect, hs]
  · simp [scan, hs]

theorem scan_core (h : m.core = n.core) : (scan m wch).core = (scan n wch).core := by
  have hcore : ∀ k : StateMachine, (scan k wch).core = (scan k.core wch).core := by
    intro k
    have hstate : k.core.state = k.state := rfl
    unfold scan
    rw [hstate]
    split
    · split_ifs <;> rfl
    · split_ifs <;> rfl
    · split_ifs <;> rfl
    · rfl
  rw [hcore m, hcore n, h]

theorem foldl_scan_core (h : m.core = n.core) : (body.foldl scan m).core = (body.foldl scan n).core := by
  induction body generalizing m n with
  | nil => exact h
  | cons c body ih => exact ih (scan_core h)

/-! ### What is accepted -/

theorem foldl_scan_ignore (hs : m.state = .csiIgnore) : body.foldl scan m = m := by
  induction body with
  | nil => rfl
  | cons c body ih =>
    rw [foldl_cons, show scan m c = m by simp [scan, hs], ih]

theorem foldl_scan_intermediate (hs : m.state = .csiIntermediate) :
    (body.foldl scan m).state ≠ .csiIgnore ↔ ∀ c ∈ body, isIntermediate c = true := by
  induction body generalizing m with
  | nil => simp [hs]
  | cons c body ih =>
    rw [foldl_cons]
    by_cases hc : isIntermediate c = true
    · have hscan : scan m c = actionCollect c m := by simp [scan, hs, hc]
      rw [hscan, ih (m := actionCollect c m) hs]
      simp [hc]
    · have hscan : scan m c = enterCsiIgnore m := by simp [scan, hs, hc]
      rw [hscan, foldl_scan_ignore body rfl]
      simp [enterCsiIgnore, hc]

theorem param_not_intermediate (h : isParam wch = true) : isIntermediate wch = false ∧ isCsiInvalid wch = false := by
  simp [isParam, isNumericParamValue, isParameterDelimiter, isIntermediate, isCsiInvalid] at *
  omega

theorem foldl_scan_param (hs : m.state = .csiParam) :
    (body.foldl scan m).state ≠ .csiIgnore ↔ ∀ c ∈ body.dropWhile isParam, isIntermediate c = true := by
  induction body generalizing m with
  | nil => simp [hs]
  | cons c body ih =>
    rw [foldl_cons, dropWhile_cons]
    by_cases hc : isParam c = true
    · have hscan : scan m c = actionParam c m := by simp [scan, hs, hc]
      rw [hscan, ih (m := actionParam c m) hs, if_pos hc]
    · rw [if_neg hc, forall_mem_cons]
      by_cases hi : isIntermediate c = true
      · have hscan : scan m c = enterCsiIntermediate (actionCollect c m) := by simp [scan, hs, hc, hi]
        rw [hscan, foldl_scan_intermediate body rfl]
        simp [hi]
      · have hscan : scan m c = enterCsiIgnore m := by simp [scan, hs, hc, hi]
        rw [hscan, foldl_scan_ignore body rfl]
        simp [enterCsiIgnore, hi]

theorem exists_csiBody_iff {body : List Wchar} : (∃ marker params inter, CsiBody body marker params inter) ↔
      ∃ marker rest, body = marker ++ rest ∧ marker.length ≤ 1 ∧ (∀ c ∈ marker, isCsiPrivateMarker c = true) ∧
        ∀ c ∈ rest.dropWhile isParam, isIntermediate c = true := by
  constructor
  · rintro ⟨marker, params, inter, h⟩
    refine ⟨marker, _, h.split, h.single, h.marker, fun c hc => h.inter c ?_⟩
    rw [dropWhile_append_of_pos h.params] at hc
    exact (dropWhile_sublist _).subset hc
  · rintro ⟨marker, rest, hsplit, hsingle, hmarker, hinter⟩
    refine ⟨marker, rest.takeWhile isParam, rest.dropWhile isParam, ?_, hsingle, hmarker, ?_, hinter⟩
    · rw [takeWhile_append_dropWhile, hsplit]
    · exact fun c hc => mem_takeWhile_imp hc

theorem marker_not_param (h : isCsiPrivateMarker wch = true) :
    isParam wch = false ∧ isIntermediate wch = false ∧ isCsiInvalid wch = false := by
  simp [isParam, isNumericParamValue, isParameterDelimiter, isIntermediate, isCsiPrivateMarker, isCsiInvalid] at *
  omega

theorem foldl_scan_entry (hrange : ∀ c ∈ body, 0x20 ≤ c.toNat ∧ c.toNat < 0x40) (hs : m.state = .csiEntry) :
    (body.foldl scan m).state ≠ .csiIgnore ↔ ∃ marker params inter, CsiBody body marker params inter := by
  rw [exists_csiBody_iff]
  cases body with
  | nil => exact ⟨fun _ => ⟨[], [], rfl, by simp, by simp, by simp⟩, fun _ => by simp [hs]⟩
  | cons c body =>
    rw [foldl_cons]
    by_cases hm : isCsiPrivateMarker c = true
    · obtain ⟨hp, hi, hinv⟩ := marker_not_param hm
      have hscan : scan m c = enterCsiParam (actionCollect c m) := by simp [scan, hs, hp, hi, hinv]
      rw [hscan, foldl_scan_param body rfl]
      constructor
      · exact fun hinter => ⟨[c], body, rfl, by simp, by simpa using hm, hinter⟩
      · rintro ⟨marker, rest, hsplit, hsingle, -, hinter⟩
        rcases marker with _ | ⟨d, _ | ⟨e, more⟩⟩
        · obtain rfl := hsplit
          simp [hp, hi] at hinter
        · obtain ⟨-, rfl⟩ := cons.inj hsplit
          exact hinter
        · simp at hsingle
    · have hnone : (∃ marker rest, c :: body = marker ++ rest ∧ marker.length ≤ 1 ∧
          (∀ d ∈ marker, isCsiPrivateMarker d = true) ∧ ∀ d ∈ rest.dropWhile isParam, isIntermediate d = true) ↔
          ∀ d ∈ (c :: body).dropWhile isParam, isIntermediate d = true := by
        constructor
        · rintro ⟨marker, rest, hsplit, -, hmarker, hinter⟩
          cases marker with
          | nil => rwa [hsplit]
          | cons d marker =>
            obtain ⟨rfl, -⟩ := cons.inj hsplit
            exact absurd (hmarker _ mem_cons_self) hm
        · exact fun hinter => ⟨[], _, rfl, by simp, by simp, hinter⟩
      rw [hnone, ← foldl_scan_param (m := enterCsiParam m) (c :: body) rfl, foldl_cons]
      -- From here on the entry state behaves as the parameter state does.
      have hsame : scan m c = scan (enterCsiParam m) c := by
        have hs' : (enterCsiParam m).state = .csiParam := rfl
        simp only [scan, hs]
        by_cases hp : isParam c = true
        · simp only [hp, param_not_intermediate hp]
          rfl
        · by_cases hi : isIntermediate c = true
          · simp only [hp, hi]
            rfl
          · have hinv : isCsiInvalid c = true := by
              simp [isParam, isNumericParamValue, isParameterDelimiter, isCsiInvalid, isIntermediate,
                isCsiPrivateMarker] at *
              omega
            simp only [hp, hinv]
            rfl
      rw [hsame]

/-! ### What is collected -/

theorem foldl_scan_params (params : List Wchar) (h : ∀ c ∈ params, isParam c = true)
    (hs : m.state = .csiEntry ∨ m.state = .csiParam) :
    ((params.foldl scan m).state = .csiEntry ∨ (params.foldl scan m).state = .csiParam) ∧
      (params.foldl scan m).identifier = m.identifier ∧
      (params.foldl scan m).parameters =
        (params.foldl (fun s c => nextParams c s.1 s.2) (m.parameters, m.parameterLimitReached)).1 := by
  induction params generalizing m with
  | nil => exact ⟨hs, rfl, rfl⟩
  | cons c params ih =>
    have hc := h c mem_cons_self
    have hscan : scan m c = enterCsiParam (actionParam c m) := by
      rcases hs with hs | hs
      · simp [scan, hs, hc, param_not_intermediate hc]
      · simp [scan, hs, hc, enterCsiParam, actionParam]
    rw [foldl_cons, hscan]
    exact ih (fun x hx => h x (mem_cons_of_mem _ hx)) (Or.inr rfl)

theorem foldl_scan_inter (inter : List Wchar) (h : ∀ c ∈ inter, isIntermediate c = true)
    (hs : m.state = .csiEntry ∨ m.state = .csiParam ∨ m.state = .csiIntermediate) :
    (inter.foldl scan m).identifier = inter.foldl VTIDBuilder.addIntermediate m.identifier ∧
      (inter.foldl scan m).parameters = m.parameters := by
  induction inter generalizing m with
  | nil => exact ⟨rfl, rfl⟩
  | cons c inter ih =>
    have hc := h c mem_cons_self
    have hp : isParam c = false := by
      by_contra hp
      rw [(param_not_intermediate (by simpa using hp)).1] at hc
      exact absurd hc (by decide)
    have hscan : scan m c = enterCsiIntermediate (actionCollect c m) := by
      rcases hs with hs | hs | hs
      · simp [scan, hs, hc]
      · simp [scan, hs, hc, hp]
      · simp [scan, hs, hc, enterCsiIntermediate, actionCollect]
    rw [foldl_cons, hscan]
    exact ih (fun x hx => h x (mem_cons_of_mem _ hx)) (Or.inr (Or.inr rfl))

theorem foldl_scan_csiBody {body marker params inter : List Wchar} (h : CsiBody body marker params inter)
    (hs : m.state = .csiEntry) (hid : m.identifier = {}) (hp : m.parameters = [])
    (hl : m.parameterLimitReached = false) :
    (body.foldl scan m).identifier = identifierOf (marker ++ inter) ∧
      (body.foldl scan m).parameters = parametersOf params := by
  have hstart : ∃ k : StateMachine, body.foldl scan m = (params ++ inter).foldl scan k ∧
      (k.state = .csiEntry ∨ k.state = .csiParam) ∧ k.identifier = identifierOf marker ∧
      k.parameters = [] ∧ k.parameterLimitReached = false := by
    rw [h.split]
    have hsingle := h.single
    have hmarker := h.marker
    rcases marker with _ | ⟨c, _ | ⟨d, rest⟩⟩
    · exact ⟨m, rfl, Or.inl hs, hid, hp, hl⟩
    · obtain ⟨hc, hi, hinv⟩ := marker_not_param (hmarker c mem_cons_self)
      have hscan : scan m c = enterCsiParam (actionCollect c m) := by simp [scan, hs, hc, hi, hinv]
      refine ⟨scan m c, rfl, ?_⟩
      rw [hscan]
      refine ⟨Or.inr rfl, ?_, hp, hl⟩
      simp [enterCsiParam, actionCollect, hid, identifierOf]
    · simp at hsingle
  obtain ⟨k, hk, hstate, hkid, hkp, hkl⟩ := hstart
  rw [hk, foldl_append]
  obtain ⟨hs₁, hid₁, hp₁⟩ := foldl_scan_params params h.params hstate
  obtain ⟨hid₂, hp₂⟩ := foldl_scan_inter inter h.inter (hs₁.imp_right Or.inl)
  rw [hid₂, hp₂, hid₁, hp₁, hkid, hkp, hkl]
  exact ⟨by rw [identifierOf, identifierOf, foldl_append], foldl_nextParams_spec params h.params⟩

end

/-! ## The engine during a sequence -/

def heard : Call → Bool
  | .execute _ | .csiDispatch _ _ => true
  | _ => false

/-- The log grows, by `l` as far as `heard` tells. -/
def Hears (m m' : StateMachine) (l : List Call) : Prop :=
  ∃ new, m'.calls = m.calls ++ new ∧ new.filter heard = l

theorem Hears.refl (m : StateMachine) : Hears m m [] := ⟨[], by simp, rfl⟩

theorem Hears.trans {m₁ m₂ m₃ : StateMachine} {l l' : List Call} (h : Hears m₁ m₂ l) (h' : Hears m₂ m₃ l') :
    Hears m₁ m₃ (l ++ l') := by
  obtain ⟨new, hn, hl⟩ := h
  obtain ⟨new', hn', hl'⟩ := h'
  exact ⟨new ++ new', by rw [hn', hn, append_assoc], by rw [filter_append, hl, hl']⟩

theorem Hears.since {m m' : StateMachine} {l : List Call} (h : Hears m m' l) : (callsSince m m').filter heard = l := by
  obtain ⟨new, hn, hl⟩ := h
  rw [callsSince, hn, drop_left, hl]

/-- They differ by engine calls alone, which are `l` as far as `heard` tells. -/
structure Passes (m m' : StateMachine) (l : List Call) : Prop where
  core : m'.core = m.core
  calls : Hears m m' l

theorem Passes.trans {m₁ m₂ m₃ : StateMachine} {l l' : List Call} (h : Passes m₁ m₂ l)
    (h' : Passes m₂ m₃ l') : Passes m₁ m₃ (l ++ l') :=
  ⟨h'.core.trans h.core, h.calls.trans h'.calls⟩

def passive : Call → Bool
  | .escDispatch _ | .vt52EscDispatch _ _ | .csiDispatch _ _ => false
  | _ => true

def Passive (E : Engine) : Prop :=
  ∀ {c : Call} {m : StateMachine}, passive c = true → (call E c m).2.core = m.core

section

variable {E : Engine} {m n : StateMachine} {wch : Wchar}

theorem call_passes (hE : Passive E) {c : Call} (hc : passive c = true) : Passes m (call E c m).2 ([c].filter heard) :=
  ⟨hE hc, [c], rfl, rfl⟩

def unheard (c : Call) : Prop := passive c = true ∧ heard c = false

theorem passes_rule (hE : Passive E) {l : List Call} : FlushRule E unheard (Passes m · l) where
  call {c n} hc h := by
    have hcall := h.trans (call_passes (m := n) hE hc.1)
    rwa [filter_singleton, hc.2, cond_false, append_nil] at hcall
  uncached h := ⟨h.core, h.calls⟩
  passes _ := ⟨rfl, rfl⟩

theorem notify_passes (hE : Passive E) {c : Call} (hc : passive c = true) :
    Passes m (notify E c m) ([c].filter heard) := by
  unfold notify
  dsimp only
  split
  · exact (passes_rule hE).flushToTerminal (call_passes hE hc)
  · exact call_passes hE hc

structure Keeps (m m' : StateMachine) : Prop where
  parserMode : m'.parserMode = m.parserMode
  callback : m'.onCsiCompleteCallback = m.onCsiCompleteCallback
  output : m'.isEngineForInput = m.isEngineForInput
  calls : Hears m m' []

theorem Passes.keeps (h : Passes m n []) : Keeps m n :=
  ⟨congrArg (·.parserMode) h.core, congrArg (·.onCsiCompleteCallback) h.core,
    congrArg (·.isEngineForInput) h.core, h.calls⟩

theorem Keeps.refl (m : StateMachine) : Keeps m m := ⟨rfl, rfl, rfl, Hears.refl m⟩

theorem Keeps.trans {m₁ m₂ m₃ : StateMachine} (h : Keeps m₁ m₂) (h' : Keeps m₂ m₃) : Keeps m₁ m₃ :=
  ⟨h'.parserMode.trans h.parserMode, h'.callback.trans h.callback, h'.output.trans h.output, h.calls.trans h'.calls⟩

theorem keeps_rule (hE : Passive E) : CallRule E unheard (Keeps m) where
  call hc h := h.trans ((passes_rule hE).call hc ⟨rfl, Hears.refl _⟩).keeps
  uncached h := { h with }
  passes _ := ⟨rfl, rfl⟩
  inner h houter := by
    simp only [StateMachine.outer, Prod.mk.injEq] at houter
    obtain ⟨hcalls, hmode, hcallback, houtput⟩ := houter
    exact h.trans ⟨hmode, hcallback, houtput, [], by rw [hcalls, append_nil], rfl⟩
  puts _ := ⟨rfl, rfl⟩

def cleared (m : StateMachine) : StateMachine :=
  { m with
    identifier := m.identifier.clear, parameters := [], parameterLimitReached := false
    oscString := [], oscParameter := 0, dcsStringHandler := none }

theorem actionClear_passes (hE : Passive E) : Passes (cleared m) (actionClear E m) [] := notify_passes hE rfl

theorem enterCleared_keeps (hE : Passive E) (q : VTStates) : Keeps m (actionClear E { m with state := q }) :=
  (keeps_rule hE).actionClear ⟨rfl, rfl, rfl, Hears.refl m⟩ ⟨rfl, rfl⟩

structure Begun (m : StateMachine) : Prop where
  state : m.state = .csiEntry
  identifier : m.identifier = {}
  parameters : m.parameters = []
  limit : m.parameterLimitReached = false

theorem enterCsiEntry_begun (hE : Passive E) : Begun (enterCsiEntry E m) := by
  have h : Passes (cleared { m with state := .csiEntry }) (enterCsiEntry E m) [] := actionClear_passes hE
  exact ⟨congrArg (·.state) h.core, congrArg (·.identifier) h.core, congrArg (·.parameters) h.core,
    congrArg (·.parameterLimitReached) h.core⟩

theorem introduced (hE : Passive E) (hansi : m.parserMode.ansi = true) {q : VTStates} {hq : resting q = false}
    (hact : ∀ k : StateMachine, k.parserMode.ansi = true → escapeAct wch k = .clear q hq)
    (hwch : 0x40 ≤ wch.toNat ∧ wch.toNat < 0x5C) :
    ∃ k, Keeps m k ∧ processCharacter E wch (processCharacter E ESC m) = actionClear E { k with state := q } := by
  obtain ⟨-, h1, h2, h3, -⟩ := @plain_of_le wch (by omega) (by omega)
  have hescaped {k : StateMachine} (hk : Keeps m k) :
    escapeAct wch k = .clear q hq := hact k (by rw [hk.parserMode, hansi])
  rw [processCharacter_event h1 h2 h3]
  by_cases hosc : m.state = .oscString
  -- In an OSC string the ESC may still belong to a string terminator.
  · have hesc : processCharacter E ESC m = enterOscTermination m := by
      simp [processCharacter, processNonC1, event, eventOscString, isC1ControlCharacter, isFromAnywhereChar,
        isEscape, isOscTerminator, ESC, hosc]
    have hkeep : Keeps m (enterEscape E (enterOscTermination m)) := enterCleared_keeps hE .escape
    refine ⟨_, hkeep, ?_⟩
    rw [hesc, event_beginsAnew E ⟨rfl, by simp [isStringTerminatorIndicator]; omega⟩,
      eventEscape_eq_run, hescaped hkeep]
    rfl
  · have hesc : processCharacter E ESC m = enterEscape E (actionInterrupt E m) := by
      simp [processCharacter, processNonC1, isC1ControlCharacter, isFromAnywhereChar, isEscape, ESC, hosc]
    have hkeep : Keeps m (enterEscape E (actionInterrupt E m)) :=
      ((keeps_rule hE).actionInterrupt (Keeps.refl m)).trans (enterCleared_keeps hE .escape)
    have hstate : (enterEscape E (actionInterrupt E m)).state = .escape := (notify_untouched _).state
    refine ⟨_, hkeep, ?_⟩
    rw [hesc, event_eq_run E (by simp [beginsAnew, hstate]), act, hstate]
    dsimp only
    rw [hescaped hkeep]
    rfl

theorem csi_begun (hE : Passive E) (hansi : m.parserMode.ansi = true) :
    Begun (processCharacter E 0x5B (processCharacter E ESC m)) ∧
      Keeps m (processCharacter E 0x5B (processCharacter E ESC m)) := by
  obtain ⟨k, hk, hentered⟩ := @introduced _ _ 0x5B hE hansi .csiEntry rfl
    (fun k hansi => by simp [escapeAct, isC0Code, isDelete, isIntermediate, isCsiIndicator, hansi]) (by decide)
  rw [hentered]
  exact ⟨enterCsiEntry_begun hE, hk.trans (enterCleared_keeps hE .csiEntry)⟩

/-! ## Runs -/

theorem processCharacter_skipped (hE : Passive E) (hm : inCsi m) (h : Inside m wch) (hs : isSkipped wch = true) :
    Passes m (processCharacter E wch m)
      (if isC0Code wch then [.execute wch] else []) := by
  by_cases h1 : isC1ControlCharacter wch = true
  · have hpm : m.parserMode.parsesC1 = false := by
      by_contra hpm
      rw [h.c1 (by simpa using hpm)] at h1
      exact absurd h1 (by decide)
    have h0 : isC0Code wch = false := by
      simp [isC1ControlCharacter, isC0Code] at *
      omega
    rw [processCharacter, if_pos h1, if_neg (by simp [hpm]), h0]
    exact ⟨rfl, Hears.refl m⟩
  · rw [processCharacter_event (by simpa using h1) h.anywhere h.escape]
    by_cases h0 : isC0Code wch = true
    · have hev : event E wch m = notify E (.execute wch) m := by
        rcases hm with hs | hs | hs | hs
        · simp [event, hs, eventCsiEntry, h0, actionExecute]
        · simp [event, hs, eventCsiParam, h0, actionExecute]
        · simp [event, hs, eventCsiIntermediate, h0, actionExecute]
        · simp [event, hs, eventCsiIgnore, h0, actionExecute]
      rw [hev, if_pos h0]
      exact notify_passes hE rfl
    · have hd : isDelete wch = true := by simpa [isSkipped, h0, h1] using hs
      have hi : isIntermediate wch = false := by
        simp [isDelete, isIntermediate] at *
        omega
      have hev : event E wch m = m := by
        rcases hm with hs | hs | hs | hs
        · simp [event, hs, eventCsiEntry, h0, hd, actionIgnore]
        · simp [event, hs, eventCsiParam, h0, hd, actionIgnore]
        · simp [event, hs, eventCsiIntermediate, h0, hd, hi, actionIgnore]
        · simp [event, hs, eventCsiIgnore, h0, hd, actionIgnore]
      rw [hev, if_neg h0]
      exact ⟨rfl, Hears.refl m⟩

theorem inCsi_of_core (h : m.core = n.core) (hm : inCsi m) : inCsi n := by
  have hstate : m.state = n.state := congrArg (·.state) h
  unfold inCsi at *
  rwa [← hstate]

theorem Inside.of_parserMode (h : n.parserMode = m.parserMode) (hw : Inside m wch) : Inside n wch :=
  { hw with c1 := h ▸ hw.c1 }

structure Scanned (m m' : StateMachine) : Prop where
  calls : m'.calls = m.calls
  parserMode : m'.parserMode = m.parserMode
  callback : m'.onCsiCompleteCallback = m.onCsiCompleteCallback
  input : m'.isEngineForInput = m.isEngineForInput
  flag : m'.processingIndividually = m.processingIndividually
  string : m'.currentString = m.currentString

theorem scan_scanned (m : StateMachine) (wch : Wchar) : Scanned m (scan m wch) := by
  unfold scan
  split <;> (try split_ifs) <;> exact ⟨rfl, rfl, rfl, rfl, rfl, rfl⟩

theorem foldl_processCharacter_scan (hE : Passive E) (pre : List Wchar) (hm : inCsi m) (h : ∀ c ∈ pre, Inside m c) :
    (pre.foldl (fun m c => processCharacter E c m) m).core = ((pre.filter (fun c => !isSkipped c)).foldl scan m).core ∧
      Hears m (pre.foldl (fun m c => processCharacter E c m) m)
        ((pre.filter isC0Code).map .execute) := by
  induction pre generalizing m with
  | nil => exact ⟨rfl, Hears.refl m⟩
  | cons c pre ih =>
    have hc := h c mem_cons_self
    have hrest := fun x hx => h x (mem_cons_of_mem _ hx)
    rw [foldl_cons]
    by_cases hs : isSkipped c = true
    · have hstep : Passes m (processCharacter E c m) _ := processCharacter_skipped hE hm hc hs
      obtain ⟨hcore, hcalls⟩ := ih (inCsi_of_core hstep.core.symm hm)
        fun x hx => (hrest x hx).of_parserMode (congrArg (·.parserMode) hstep.core)
      refine ⟨?_, ?_⟩
      · rw [hcore, filter_cons_of_neg (by simp [hs])]
        exact foldl_scan_core _ hstep.core
      · have := hstep.calls.trans hcalls
        rw [filter_cons]
        split_ifs at this ⊢ <;> exact this
    · have hs' : isSkipped c = false := by simpa using hs
      have h0 : isC0Code c = false := by
        simp [isSkipped] at hs'
        simpa using hs'.1.1
      have hstep : processCharacter E c m = scan m c := processCharacter_scan hm (hc.range hs')
      have hsc := scan_scanned m c
      rw [hstep, filter_cons_of_pos (by simp [hs']), filter_cons_of_neg (by simp [h0])]
      obtain ⟨hcore, new, hnew, hheard⟩ := ih (scan_inCsi hm) fun x hx => (hrest x hx).of_parserMode hsc.parserMode
      exact ⟨hcore, new, by rw [hnew, hsc.calls], hheard⟩

theorem foldl_scan_scanned (m : StateMachine) : Scanned m (body.foldl scan m) := by
  induction body generalizing m with
  | nil => exact ⟨rfl, rfl, rfl, rfl, rfl, rfl⟩
  | cons c body ih =>
    have h := scan_scanned m c
    have h' := ih (scan m c)
    exact ⟨h'.calls.trans h.calls, h'.parserMode.trans h.parserMode, h'.callback.trans h.callback,
      h'.input.trans h.input, h'.flag.trans h.flag, h'.string.trans h.string⟩

theorem processCharacter_final {E : Engine} (hm : inCsi m) (hf : isFinal wch = true) : processCharacter E wch m =
      if m.state = .csiIgnore then enterGround m
      else executeCsiCompleteCallback E (enterGround (actionCsiDispatch E wch m)) := by
  have hr : 0x40 ≤ wch.toNat ∧ ¬(0x7F ≤ wch.toNat ∧ wch.toNat ≤ 0x9F) := by
    simp [isFinal, isC1ControlCharacter, isDelete] at hf
    omega
  obtain ⟨h0, h1, h2, h3, h4⟩ := @plain_of_le wch (by omega) hr.2
  have h5 : isIntermediate wch = false := by simp [isIntermediate]; omega
  have h6 : isNumericParamValue wch = false := by simp [isNumericParamValue]; omega
  have h7 : isParameterDelimiter wch = false := by simp [isParameterDelimiter]; omega
  have h8 : isCsiPrivateMarker wch = false := by simp [isCsiPrivateMarker]; omega
  have h9 : isCsiInvalid wch = false := by simp [isCsiInvalid]; omega
  rw [processCharacter_event h1 h2 h3]
  rcases hm with hs | hs | hs | hs
  · simp [event, hs, eventCsiEntry, h0, h4, h5, h6, h7, h8, h9]
  · simp [event, hs, eventCsiParam, isParameterInvalid, h0, h4, h5, h6, h7, h8, h9]
  · simp [event, hs, eventCsiIntermediate, isIntermediateInvalid, h0, h4, h5, h6, h7, h8, h9]
  · simp [event, hs, eventCsiIgnore, isIntermediateInvalid, h0, h4, h5, h6, h7, h8, h9]

def NoCallback (E : Engine) : Prop :=
  ∀ {id ps} {m : StateMachine}, m.onCsiCompleteCallback = none →
    (call E (.csiDispatch id ps) m).2.onCsiCompleteCallback = none

theorem actionCsiDispatch_hears (hE : Passive E) (hnone : NoCallback E) (hcb : m.onCsiCompleteCallback = none) :
    Hears m (actionCsiDispatch E wch m)
        [.csiDispatch (m.identifier.finalize wch) m.parameters] ∧
      (actionCsiDispatch E wch m).onCsiCompleteCallback = none := by
  let c := Call.csiDispatch (m.identifier.finalize wch) m.parameters
  have hcall : Hears m (call E c m).2 [c] := ⟨[c], rfl, rfl⟩
  have hflush : Passes (call E c m).2
      (flushToTerminal E (call E c m).2).2 [] := (passes_rule hE).flushToTerminal ⟨rfl, Hears.refl _⟩
  unfold actionCsiDispatch notify
  dsimp only
  split
  · exact ⟨hcall.trans hflush.calls, (congrArg (·.onCsiCompleteCallback) hflush.core).trans (hnone hcb)⟩
  · exact ⟨hcall, hnone hcb⟩

theorem foldl_scan_inCsi (hm : inCsi m) :
    inCsi (body.foldl scan m) := foldlRecOn body scan hm fun _ h _ _ => scan_inCsi h

/-- Controls are executed, and a body of the language is dispatched. -/
structure CsiOutcome (H : List Call → Prop) (pre : List Wchar) (f : Wchar) : Prop where
  dispatched : ∀ marker params inter, CsiBody (pre.filter fun c => !isSkipped c) marker params inter →
    H ((pre.filter isC0Code).map Call.execute ++
      [.csiDispatch ((identifierOf (marker ++ inter)).finalize f) (parametersOf params)])
  dropped : (¬∃ marker params inter, CsiBody (pre.filter fun c => !isSkipped c) marker params inter) →
    H ((pre.filter isC0Code).map Call.execute)

theorem CsiOutcome.imp {H H' : List Call → Prop} {pre : List Wchar} {f : Wchar} (h : CsiOutcome H pre f)
    (himp : ∀ {l}, H l → H' l) : CsiOutcome H' pre f :=
  ⟨fun marker params inter hbody => himp (h.dispatched marker params inter hbody), fun hno => himp (h.dropped hno)⟩

theorem begun_sequence (hE : Passive E) (hnone : NoCallback E) (hbegun : Begun m)
    (hcb : m.onCsiCompleteCallback = none) (pre : List Wchar) (f : Wchar) (hpre : ∀ c ∈ pre, Inside m c)
    (hf : isFinal f = true) :
    ((pre ++ [f]).foldl (fun m c => processCharacter E c m) m).state = .ground ∧
      CsiOutcome (Hears m ((pre ++ [f]).foldl (fun m c => processCharacter E c m) m)) pre f := by
  let body := pre.filter fun c => !isSkipped c
  let executed := (pre.filter isC0Code).map Call.execute
  let m₂ := pre.foldl (fun m c => processCharacter E c m) m
  have hin : inCsi m := Or.inl hbegun.state
  obtain ⟨hcore, hcalls⟩ : m₂.core = (body.foldl scan m).core ∧ Hears m m₂ executed :=
    foldl_processCharacter_scan hE pre hin hpre
  have hin₂ : inCsi m₂ := inCsi_of_core hcore.symm (foldl_scan_inCsi body hin)
  have hstate₂ : m₂.state = (body.foldl scan m).state := congrArg (·.state) hcore
  have hid₂ : m₂.identifier = (body.foldl scan m).identifier := congrArg (·.identifier) hcore
  have hparams₂ : m₂.parameters = (body.foldl scan m).parameters := congrArg (·.parameters) hcore
  have hcb₂ : m₂.onCsiCompleteCallback = none := by
    have : m₂.onCsiCompleteCallback = (body.foldl scan m).onCsiCompleteCallback :=
      congrArg (·.onCsiCompleteCallback) hcore
    rw [this, (foldl_scan_scanned body m).callback, hcb]
  have haccept : m₂.state ≠ .csiIgnore ↔ ∃ marker params inter, CsiBody body marker params inter := by
    rw [hstate₂]
    apply foldl_scan_entry body _ hbegun.state
    intro c hc
    obtain ⟨hmem, hskip⟩ := mem_filter.mp hc
    exact (hpre c hmem).range (by simpa using hskip)
  obtain ⟨hdisp, hdone⟩ : Hears m₂ (actionCsiDispatch E f m₂)
          [.csiDispatch (m₂.identifier.finalize f) m₂.parameters] ∧
        (actionCsiDispatch E f m₂).onCsiCompleteCallback = none :=
    actionCsiDispatch_hears hE hnone hcb₂
  rw [foldl_append, foldl_cons, foldl_nil]
  change (processCharacter E f m₂).state = .ground ∧ CsiOutcome (Hears m (processCharacter E f m₂)) pre f
  rw [processCharacter_final hin₂ hf]
  by_cases hign : m₂.state = .csiIgnore
  · rw [if_pos hign]
    refine ⟨rfl, fun marker params inter hbody => ?_, fun _ => hcalls⟩
    exact absurd hign (haccept.mpr ⟨marker, params, inter, hbody⟩)
  · rw [if_neg hign]
    have hcomplete : executeCsiCompleteCallback E
        (enterGround (actionCsiDispatch E f m₂)) =
        enterGround (actionCsiDispatch E f m₂) := by
      unfold executeCsiCompleteCallback
      rw [show (enterGround (actionCsiDispatch E f m₂)).onCsiCompleteCallback = none from hdone]
    rw [hcomplete]
    refine ⟨rfl, fun marker params inter hbody => ?_, fun hno => absurd (haccept.mp hign) hno⟩
    obtain ⟨hid, hparams⟩ := foldl_scan_csiBody hbody hbegun.state hbegun.identifier hbegun.parameters hbegun.limit
    rw [hid₂, hparams₂, hid, hparams] at hdisp
    exact hcalls.trans hdisp

theorem csi_run (hE : Passive E) (hnone : NoCallback E) (hansi : m.parserMode.ansi = true)
    (hcb : m.onCsiCompleteCallback = none) (pre : List Wchar) (f : Wchar) (hpre : ∀ c ∈ pre, Inside m c)
    (hf : isFinal f = true) :
    (([ESC, 0x5B] ++ (pre ++ [f])).foldl (fun m c => processCharacter E c m) m).state = .ground ∧
      CsiOutcome (Hears m (([ESC, 0x5B] ++ (pre ++ [f])).foldl (fun m c => processCharacter E c m) m)) pre f := by
  obtain ⟨hbegun, hkeep⟩ := csi_begun hE hansi
  have hpre₁ := fun c hc => Inside.of_parserMode hkeep.parserMode (hpre c hc)
  obtain ⟨hground, hout⟩ := begun_sequence hE hnone hbegun (hkeep.callback.trans hcb) pre f hpre₁ hf
  exact ⟨hground, hout.imp hkeep.calls.trans⟩

end

section

variable {terminal : Bool} {D : List Call → Reply} {inject : List Wchar → StateMachine → StateMachine}
  {m : StateMachine}

theorem passive_outputEngine : Passive (outputEngine terminal D inject) := by
  intro c m hc
  cases c <;> simp [passive] at hc <;> simp [call, outputEngine, StateMachine.core]

theorem noCallback_outputEngine (hcallback : ∀ h, (D h).macroText = none) :
    NoCallback (outputEngine terminal D inject) := by
  intro id ps m hcb
  simp [call, outputEngine, hcallback, hcb]

variable (terminal inject) in
/-- Controls are executed at once, and a body of the language is dispatched once. -/
theorem csi_sequence (hcallback : ∀ h, (D h).macroText = none) (hansi : m.parserMode.ansi = true)
    (hcb : m.onCsiCompleteCallback = none) (pre : List Wchar) (f : Wchar) (hpre : ∀ c ∈ pre, Inside m c)
    (hf : isFinal f = true) :
    let run := ([ESC, 0x5B] ++ (pre ++ [f])).foldl
      (fun m c => processCharacter (outputEngine terminal D inject) c m) m
    let body := pre.filter (fun c => !isSkipped c)
    let executed := (pre.filter isC0Code).map Call.execute
    run.state = .ground ∧ (∀ marker params inter, CsiBody body marker params inter → (callsSince m run).filter heard =
          executed ++ [.csiDispatch ((identifierOf (marker ++ inter)).finalize f) (parametersOf params)]) ∧
      ((¬∃ marker params inter, CsiBody body marker params inter) → (callsSince m run).filter heard = executed) := by
  intro run body executed
  obtain ⟨hground, hout⟩ :=
    csi_run (E := outputEngine terminal D inject) passive_outputEngine
      (noCallback_outputEngine hcallback) hansi hcb pre f hpre hf
  have hheard := hout.imp Hears.since
  exact ⟨hground, hheard.dispatched, hheard.dropped⟩

end

theorem csi_sequence_decset :
    let E := outputEngine true acceptAll (fun _ m => m)
    let m := new E false
    let pre : List Wchar := [0x3F, 0x31, 0x3B, 0x3B, 0x37, 0x30, 0x30, 0x0A, 0x30, 0x30]
    let run := ([ESC, 0x5B] ++ (pre ++ [0x6D])).foldl (fun m c => processCharacter E c m) m
    run.state = .ground ∧ (callsSince m run).filter heard =
        [.execute 0x0A, .csiDispatch (VTID.fromString ['?', 'm']) [{ value := 1 }, {}, { value := 65535 }]] := by
  intro E m pre run
  have hpre : ∀ c ∈ pre, Inside m c := by
    intro c hc
    have hall : pre.all (fun c => !isFinal c && !isFromAnywhereChar c && !isEscape c &&
      !isC1ControlCharacter c) = true := by decide
    have h := all_eq_true.mp hall c hc
    simp only [Bool.and_eq_true, Bool.not_eq_true'] at h
    exact ⟨h.1.1.1, h.1.1.2, h.1.2, fun _ => h.2⟩
  have hbody : CsiBody (pre.filter (fun c => !isSkipped c)) [0x3F]
      [0x31, 0x3B, 0x3B, 0x37, 0x30, 0x30, 0x30, 0x30] [] :=
    ⟨by decide, by decide, all_eq_true.mp (by decide), all_eq_true.mp (by decide), all_eq_true.mp (by decide)⟩
  obtain ⟨hground, hok, -⟩ :=
    csi_sequence true (fun _ m => m) (D := acceptAll) (m := m) (fun _ => rfl) rfl rfl pre 0x6D hpre (by decide)
  exact ⟨hground, (hok _ _ _ hbody).trans (by decide)⟩

/-- A dispatcher that answers `ESC [ 1 * z` with the text of a macro. -/
def invokeMacro (calls : List Call) : Reply :=
  if calls.getLast? = some (.csiDispatch (VTID.fromString ['*', 'z']) [{ value := 1 }]) then
    { macroText := some [ESC, 0x5B, 0x6D] }
  else {}

/-- A C1 control is dropped or begins anew, and a macro may bring a second dispatch. -/
theorem csi_dispatched_otherwise :
    let E := outputEngine true acceptAll (fun _ m => m)
    let M := outputEngine true invokeMacro (processString E)
    let m := new E false
    let m8 := setParserMode .acceptC1 true m
    (callsSince m ([ESC, 0x5B, 0x31, 0x80, 0x6D].foldl (fun m c => processCharacter E c m) m)).filter heard =
        [.csiDispatch (VTID.fromString ['m']) [{ value := 1 }]] ∧
      (callsSince m8 ([ESC, 0x5B, 0x9B, 0x31, 0x6D].foldl (fun m c => processCharacter E c m) m8)).filter heard =
        [.csiDispatch (VTID.fromString ['m']) [{ value := 1 }]] ∧
      (callsSince m ([ESC, 0x5B, 0x31, 0x2A, 0x7A].foldl (fun m c => processCharacter M c m) m)).filter heard =
        [.csiDispatch (VTID.fromString ['*', 'z']) [{ value := 1 }], .csiDispatch (VTID.fromString ['m']) []] := by
  decide

/-! ## Strings -/

theorem filter_heard_printed (l : List Call) : (printed l).filter heard = l.filter heard := by
  have hprint : ∀ s : List Wchar, (s.map Call.print).filter heard = [] := by
    intro s
    rw [filter_eq_nil_iff]
    intro c hc
    obtain ⟨wch, -, rfl⟩ := mem_map.mp hc
    simp [heard]
  induction l with
  | nil => rfl
  | cons c l ih =>
    have hcons : printed (c :: l) = printed [c] ++ printed l := printed_append [c] l
    rw [hcons, filter_append, ih]
    cases c <;> simp [printed, printText, heard, filter_cons]

/-- The same for `ProcessString`, in whatever chunks it arrives. -/
theorem csi_sequence_processString {D : List Call → Reply} {inject : List Wchar → StateMachine → StateMachine}
    {m : StateMachine} (hD : Quiet D) (hm : Reachable (outputEngine false D inject) false m)
    (hansi : m.parserMode.ansi = true) (pre : List Wchar) (f : Wchar) (hpre : ∀ c ∈ pre, Inside m c)
    (hf : isFinal f = true) (chunks : List (List Wchar)) (hchunks : chunks.flatten = [ESC, 0x5B] ++ (pre ++ [f])) :
    let run := chunks.foldl (fun m chunk => processString (outputEngine false D inject) chunk m) m
    run.state = .ground ∧ CsiOutcome (fun l => (callsSince m run).filter heard = l) pre f := by
  intro run
  obtain ⟨hjoin, hcore⟩ := chunks_joined (listens_outputEngine hD) hm chunks
  obtain ⟨hspell, hcore'⟩ := string_spelled (listens_outputEngine hD) hm chunks.flatten
  rw [hchunks] at hspell hcore' hjoin hcore
  obtain ⟨hground, hout⟩ := csi_run passive_outputEngine (noCallback_outputEngine hD.macroText) hansi
    (hm.framed (tracks_eq (listens_outputEngine hD))).callback pre f hpre hf
  have hheard : (callsSince m run).filter heard = (callsSince m (([ESC, 0x5B] ++ (pre ++ [f])).foldl
      (fun m c => processCharacter (outputEngine false D inject) c m) m)).filter heard := by
    rw [← filter_heard_printed, printed_of_joinPrints hjoin, hspell, filter_heard_printed]
  exact ⟨(congrArg (·.state) (hcore.trans hcore')).trans hground, hout.imp fun h => hheard.trans h.since⟩

theorem csi_sequence_processString_split :
    let E := outputEngine false acceptAll (fun _ m => m)
    let chunks : List (List Wchar) := [[ESC], [0x5B, 0x31], [0x6D]]
    (chunks.foldl (fun m chunk => processString E chunk m) (new E false)).state = .ground := by
  intro E chunks
  have hinside : ∀ c ∈ ([0x31] : List Wchar), Inside (new E false) c := by
    rintro _ (_ | ⟨_, ⟨⟩⟩)
    exact ⟨by decide, by decide, by decide, by decide⟩
  exact (csi_sequence_processString quiet_acceptAll .new rfl [0x31] 0x6D hinside (by decide) chunks rfl).1

end Terminal.Parser
