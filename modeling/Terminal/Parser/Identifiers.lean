import Mathlib.Tactic.IntervalCases
import Mathlib.Tactic.Ring
import Terminal.Parser.Csi

/-!
# What an identifier says about its sequence

An identifier has a byte lane for each collected character. The high byte of a final character
falls into the next lane, where another sequence has its own final character.
-/

namespace Terminal.Parser

open StateMachine List

/-! ## Lanes -/

def packed : Nat → List Wchar → Wchar → Nat
  | lanes, [], final => if lanes ≤ 1 then final.toNat % 256 else final.toNat
  | lanes, c :: collected, final => c.toNat + 256 * packed (lanes - 1) collected final

def FitsLane (c : Wchar) : Prop := 0 < c.toNat ∧ c.toNat < 256

theorem addIntermediate_idShift {b : VTIDBuilder} {k : Nat} (hk : k < 7) (hshift : b.idShift = 8 * k)
    (hacc : b.idAccumulator.toNat < 256 ^ k) {c : Wchar} (hc : c.toNat < 256) :
    (b.addIntermediate c).idShift = 8 * (k + 1) ∧
      (b.addIntermediate c).idAccumulator.toNat = b.idAccumulator.toNat + 256 ^ k * c.toNat ∧
      (b.addIntermediate c).idAccumulator.toNat < 256 ^ (k + 1) := by
  have hroom : ¬ b.idShift + 8 ≥ 64 := by omega
  unfold VTIDBuilder.addIntermediate
  rw [if_neg hroom]
  simp only [hshift]
  interval_cases k <;> norm_num at hacc ⊢ <;> omega

theorem finalize_toNat {b : VTIDBuilder} {k : Nat} (hk : k ≤ 7) (hshift : b.idShift = 8 * k)
    (hacc : b.idAccumulator.toNat < 256 ^ k) (final : Wchar) :
    (b.finalize final).toNat = b.idAccumulator.toNat + 256 ^ k * packed (8 - k) [] final := by
  simp only [VTIDBuilder.finalize, packed, hshift, BitVec.toNat_add, BitVec.toNat_shiftLeft,
    BitVec.toNat_setWidth, Nat.shiftLeft_eq]
  interval_cases k <;> norm_num at hacc ⊢ <;> omega

theorem foldl_finalize_toNat {collected : List Wchar} (hfits : ∀ c ∈ collected, FitsLane c) (final : Wchar)
    {b : VTIDBuilder} {k : Nat} (hk : k + collected.length ≤ 7) (hshift : b.idShift = 8 * k)
    (hacc : b.idAccumulator.toNat < 256 ^ k) :
    ((collected.foldl VTIDBuilder.addIntermediate b).finalize final).toNat =
      b.idAccumulator.toNat + 256 ^ k * packed (8 - k) collected final := by
  induction collected generalizing b k with
  | nil =>
    exact finalize_toNat hk hshift hacc final
  | cons c collected ih =>
    simp only [length_cons] at hk
    obtain ⟨hshift', hacc', hlt⟩ := addIntermediate_idShift (by omega) hshift hacc (hfits c mem_cons_self).2
    rw [foldl_cons, ih (fun x hx => hfits x (mem_cons_of_mem c hx)) (by omega) hshift' hlt, hacc']
    simp only [packed, Nat.sub_sub]
    ring

theorem identifierOf_toNat {collected : List Wchar} (hfits : ∀ c ∈ collected, FitsLane c)
    (hlen : collected.length ≤ 7) (final : Wchar) :
    ((identifierOf collected).finalize final).toNat = packed 8 collected final := by
  have h := foldl_finalize_toNat hfits final (b := {}) (k := 0) (by omega) rfl (by decide)
  rw [Nat.pow_zero, Nat.one_mul] at h
  exact h.trans (Nat.zero_add _)

/-! ## Overlaps -/

/-- The high byte of a final counts as the next lane, or is lost. -/
def Overlap (lanes : Nat) (is : List Wchar) (f : Wchar) (js : List Wchar) (g : Wchar) : Prop :=
  (js = is ∧ js.length + 1 = lanes ∧ f.toNat % 256 = g.toNat % 256) ∨
    (∃ c, js = is ++ [c] ∧ (f.toNat = c.toNat + 256 * g.toNat ∨
      js.length + 1 = lanes ∧ f.toNat = c.toNat + 256 * (g.toNat % 256))) ∨
    (∃ c d, js = is ++ [c, d] ∧ js.length + 1 = lanes ∧ f.toNat = c.toNat + 256 * d.toNat ∧ g.toNat % 256 = 0)

section

variable {f g : Wchar} {is js : List Wchar} {lanes : Nat}

theorem overlap_cons (c : Wchar) : Overlap (lanes + 1) (c :: is) f (c :: js) g ↔ Overlap lanes is f js g := by
  simp [Overlap]

theorem overlap_nil : Overlap lanes [] f [] g ↔ lanes = 1 ∧ f.toNat % 256 = g.toNat % 256 := by
  simp [Overlap, eq_comm (a := lanes)]

theorem packed_nil_nil (hlanes : 0 < lanes) : packed lanes [] f = packed lanes [] g ↔ f = g ∨
    Overlap lanes [] f [] g := by
  rw [overlap_nil, BitVec.toNat_eq]
  unfold packed
  split_ifs <;> omega

theorem packed_nil_cons (hjs : ∀ c ∈ js, FitsLane c) (hg : 0 < g.toNat) (hne : js ≠ [])
    (hlen : js.length < lanes) : packed lanes [] f = packed lanes js g ↔ Overlap lanes [] f js g := by
  match js with
  | [] => exact absurd rfl hne
  | [c] =>
    have hc := hjs c (by simp)
    simp only [length_cons] at hc hlen
    simp only [packed, if_neg (show ¬ lanes ≤ 1 by omega)]
    split_ifs with hlast
    · have : lanes = 2 := by omega
      simp [Overlap]
      omega
    · have : ¬ 2 = lanes := by omega
      simp [Overlap, this]
  | [c, d] =>
    have hc := hjs c (by simp)
    have hd := hjs d (by simp)
    simp only [length_cons] at hc hd hlen
    simp only [packed, if_neg (show ¬ lanes ≤ 1 by omega)]
    split_ifs with hlast
    · have : lanes = 3 := by omega
      simp [Overlap]
      omega
    · have : ¬ 3 = lanes := by omega
      simp [Overlap]
      omega
  | c :: d :: e :: js =>
    -- The third character would have to be zero.
    have he := hjs e (by simp)
    simp only [FitsLane, length_cons] at he hlen
    simp only [packed, if_neg (show ¬ lanes ≤ 1 by omega)]
    simp [Overlap]
    omega

theorem packed_eq_iff (his : ∀ c ∈ is, FitsLane c) (hjs : ∀ c ∈ js, FitsLane c) (hf : 0 < f.toNat)
    (hg : 0 < g.toNat) (hi : is.length < lanes) (hj : js.length < lanes) :
    packed lanes is f = packed lanes js g ↔ (is = js ∧ f = g) ∨ Overlap lanes is f js g ∨ Overlap lanes js g is f := by
  induction is generalizing js lanes with
  | nil =>
    cases js with
    | nil =>
      rw [packed_nil_nil hi]
      simp only [true_and, overlap_nil, eq_comm (a := g.toNat % 256), or_self]
    | cons c js =>
      have hback : ¬ Overlap lanes (c :: js) g [] f := by simp [Overlap]
      simp [packed_nil_cons hjs hg (cons_ne_nil c js) hj, hback]
  | cons c is ih =>
    cases js with
    | nil =>
      have hback : ¬ Overlap lanes (c :: is) f [] g := by simp [Overlap]
      simp [eq_comm (a := packed lanes (c :: is) f), packed_nil_cons his hf (cons_ne_nil c is) hi, hback]
    | cons d js =>
      obtain ⟨lanes, rfl⟩ : ∃ n, lanes = n + 1 := ⟨lanes - 1, by omega⟩
      simp only [length_cons, Nat.add_lt_add_iff_right] at hi hj
      have ih := ih (fun x hx => his x (mem_cons_of_mem c hx)) (fun x hx => hjs x (mem_cons_of_mem d hx)) hi hj
      have hc := his c mem_cons_self
      have hd := hjs d mem_cons_self
      simp only [FitsLane] at hc hd
      by_cases hcd : c = d
      · subst hcd
        rw [overlap_cons, overlap_cons, cons.injEq, eq_self, true_and, ← ih]
        simp [packed]
      · have hne : c.toNat ≠ d.toNat := fun h => hcd (BitVec.eq_of_toNat_eq h)
        simp only [packed, Overlap, cons_append, cons.injEq, hcd, Ne.symm hcd, false_and,
          exists_false, or_false, iff_false]
        omega

end

/-! ## Sequences that the parser dispatches -/

/-- What ends an escape sequence, and introduces no other right after ESC. -/
def isEscapeFinal (intermediates : List Wchar) (wch : Wchar) : Bool :=
  0x30 ≤ wch.toNat && !isDelete wch && !isC1ControlCharacter wch &&
    !(intermediates.isEmpty && (isCsiIndicator wch || isOscIndicator wch || isDcsIndicator wch ||
      isSosIndicator wch || isPmIndicator wch || isApcIndicator wch))

inductive Sequence
  | escape (intermediates : List Wchar) (final : Wchar)
    (inter : ∀ c ∈ intermediates, isIntermediate c = true)
    (ends : isEscapeFinal intermediates final = true)
  | csi (marker params intermediates : List Wchar) (final : Wchar)
    (body : CsiBody (marker ++ (params ++ intermediates)) marker params intermediates)
    (ends : isFinal final = true)

namespace Sequence

def text : Sequence → List Wchar
  | escape intermediates final _ _ => [ESC] ++ (intermediates ++ [final])
  | csi marker params intermediates final _ _ => [ESC, 0x5B] ++ (marker ++ (params ++ intermediates) ++ [final])

def collected : Sequence → List Wchar
  | escape intermediates _ _ _ => intermediates
  | csi marker _ intermediates _ _ _ => marker ++ intermediates

def final : Sequence → Wchar
  | escape _ final _ _ => final
  | csi _ _ _ final _ _ => final

def identifier (s : Sequence) : VTID := (identifierOf s.collected).finalize s.final

def call (s : Sequence) : Call :=
  match s with
  | escape _ _ _ _ => .escDispatch s.identifier
  | csi _ params _ _ _ _ => .csiDispatch s.identifier (parametersOf params)

theorem fitsLane (s : Sequence) : ∀ c ∈ s.collected, FitsLane c := by
  intro c hc
  unfold FitsLane
  cases s with
  | escape intermediates final inter ends =>
    have := inter c hc
    simp [isIntermediate] at this
    omega
  | csi marker params intermediates final body ends =>
    rcases mem_append.mp hc with h | h
    · have := body.marker c h
      simp [isCsiPrivateMarker] at this
      omega
    · have := body.inter c h
      simp [isIntermediate] at this
      omega

theorem final_pos (s : Sequence) : 0 < s.final.toNat := by
  cases s with
  | escape intermediates final inter ends =>
    simp [isEscapeFinal] at ends
    simp only [Sequence.final]
    omega
  | csi marker params intermediates final body ends =>
    simp [isFinal] at ends
    simp only [Sequence.final]
    omega

end Sequence

section

variable {E : Engine} {m : StateMachine}

theorem foldl_collect (inter : List Wchar) (hinter : ∀ c ∈ inter, isIntermediate c = true)
    (hout : m.isEngineForInput = false) (hstate : m.state = .escape ∨ m.state = .escapeIntermediate) :
    let run := inter.foldl (fun m c => processCharacter E c m) m
    Keeps m run ∧ run.identifier = inter.foldl VTIDBuilder.addIntermediate m.identifier ∧
      (run.state = .escapeIntermediate ∨ inter = [] ∧ run.state = m.state) := by
  induction inter generalizing m with
  | nil => exact ⟨Keeps.refl m, rfl, Or.inr ⟨rfl, rfl⟩⟩
  | cons c inter ih =>
    have hc := hinter c mem_cons_self
    have hrange : 0x20 ≤ c.toNat ∧ c.toNat ≤ 0x2F := by simpa [isIntermediate] using hc
    have hstep : processCharacter E c m =
        { m with identifier := m.identifier.addIntermediate c, state := .escapeIntermediate } := by
      obtain ⟨hc0, hc1, hany, hesc, hdel⟩ := @plain_of_le c hrange.1 (by omega)
      rw [processCharacter_event hc1 hany hesc]
      rcases hstate with hs | hs
      · simp [event, hs, eventEscape, hc0, hdel, hc, hout, enterEscapeIntermediate, actionCollect]
      · simp [event, hs, eventEscapeIntermediate, hc0, hc, actionCollect]
    rw [foldl_cons, hstep]
    obtain ⟨hkeep, hid, hend⟩ :=
      ih (m := { m with identifier := m.identifier.addIntermediate c, state := .escapeIntermediate })
        (fun x hx => hinter x (mem_cons_of_mem c hx)) hout (Or.inr rfl)
    refine ⟨{ hkeep with }, hid, Or.inl ?_⟩
    rcases hend with h | ⟨-, h⟩ <;> exact h

theorem event_escapeFinal {inter : List Wchar} {final : Wchar} (hfinal : isEscapeFinal inter final = true)
    (hout : m.isEngineForInput = false) (hansi : m.parserMode.ansi = true)
    (hstate : m.state = .escapeIntermediate ∨ inter = [] ∧ m.state = .escape) :
    processCharacter E final m = enterGround (actionEscDispatch E final m) := by
  simp only [isEscapeFinal, Bool.and_eq_true, Bool.not_eq_true', decide_eq_true_eq] at hfinal
  obtain ⟨⟨⟨hlow, hdel⟩, hc1⟩, hintro⟩ := hfinal
  rw [processCharacter_event hc1 (by simp [isFromAnywhereChar]; omega) (by simp [isEscape]; omega)]
  have hc0 : isC0Code final = false := by simp [isC0Code]; omega
  have hinter : isIntermediate final = false := by simp [isIntermediate]; omega
  rcases hstate with hs | ⟨rfl, hs⟩
  · simp [event, hs, eventEscapeIntermediate, hc0, hdel, hinter, hansi]
  · simp only [isEmpty_nil, Bool.true_and, Bool.or_eq_false_iff] at hintro
    obtain ⟨⟨⟨⟨⟨hcsi, hosc⟩, hdcs⟩, hsos⟩, hpm⟩, hapc⟩ := hintro
    simp [event, hs, eventEscape, hc0, hdel, hinter, hansi, hout, hcsi, hosc, hdcs, hsos, hpm, hapc]

end

section

variable {terminal : Bool} {D : List Call → Reply} {inject : List Wchar → StateMachine → StateMachine}
  {m : StateMachine}

theorem escape_dispatched (hm : m.state = .ground) (hout : m.isEngineForInput = false)
    (hansi : m.parserMode.ansi = true) (inter : List Wchar) (final : Wchar)
    (hinter : ∀ c ∈ inter, isIntermediate c = true) (hfinal : isEscapeFinal inter final = true) :
    let run := ([ESC] ++ (inter ++ [final])).foldl (fun m c => processCharacter (outputEngine terminal D inject) c m) m
    run.state = .ground ∧ .escDispatch ((identifierOf inter).finalize final) ∈ callsSince m run := by
  let E := outputEngine terminal D inject
  let k := enterEscape E m
  have hesc : processCharacter E ESC m = k := by
    simp [processCharacter, processNonC1, isC1ControlCharacter, isFromAnywhereChar, isEscape, ESC,
      hm, actionInterrupt, k]
  have hcleared : Passes (cleared { m with state := .escape }) k [] := actionClear_passes passive_outputEngine
  have hkeep : Keeps m k := enterCleared_keeps passive_outputEngine .escape
  have hstate : k.state = .escape := congrArg (·.state) hcleared.core
  have hid : k.identifier = {} := congrArg (·.identifier) hcleared.core
  obtain ⟨hcollect, hid', hend⟩ := foldl_collect (E := E) inter hinter (hkeep.output.trans hout) (Or.inl hstate)
  have hkeep' := hkeep.trans hcollect
  have hlast := event_escapeFinal (E := E) hfinal (hkeep'.output.trans hout)
    ((congrArg (·.ansi) hkeep'.parserMode).trans hansi) (by rwa [hstate] at hend)
  obtain ⟨old, hold, -⟩ := hkeep'.calls
  obtain ⟨new, hnew⟩ := notify_calls (E := E) (m := inter.foldl (fun m c => processCharacter E c m) k)
    (.escDispatch ((identifierOf inter).finalize final))
  intro run
  have hrun : run = enterGround (notify E (.escDispatch ((identifierOf inter).finalize final))
      (inter.foldl (fun m c => processCharacter E c m) k)) := by
    simp only [run, foldl_append, foldl_cons, foldl_nil]
    rw [hesc, hlast, actionEscDispatch, hid', hid]
    rfl
  rw [hrun]
  unfold callsSince enterGround
  rw [hnew, hold]
  simp

theorem Sequence.call_mem_callsSince (hcallback : ∀ h, (D h).macroText = none) (hm : m.state = .ground)
    (hout : m.isEngineForInput = false) (hansi : m.parserMode.ansi = true)
    (hcb : m.onCsiCompleteCallback = none) (s : Sequence) :
    let run := s.text.foldl (fun m c => processCharacter (outputEngine terminal D inject) c m) m
    run.state = .ground ∧ s.call ∈ callsSince m run := by
  cases s with
  | escape inter final hinter hfinal => exact escape_dispatched hm hout hansi inter final hinter hfinal
  | csi marker params inter final body hfinal =>
    have hrange := body.range
    have hinside : ∀ c ∈ marker ++ (params ++ inter), Inside m c := by
      intro c hc
      have hlow := hrange c hc
      obtain ⟨-, hc1, hany, hesc, -⟩ := plain_of_le hlow.1 (by omega)
      exact ⟨by simp [isFinal]; omega, hany, hesc, fun _ => hc1⟩
    have hbody : (marker ++ (params ++ inter)).filter (fun c => !isSkipped c) = marker ++ (params ++ inter) := by
      rw [filter_eq_self]
      intro c hc
      have hlow := hrange c hc
      simp [isSkipped, plain_of_le hlow.1 (by omega)]
    obtain ⟨hground, hout⟩ := csi_run (E := outputEngine terminal D inject) passive_outputEngine
      (noCallback_outputEngine hcallback) hansi hcb _ final hinside hfinal
    refine ⟨hground, ?_⟩
    obtain ⟨new, hnew, hfilter⟩ := hout.dispatched marker params inter (by rw [hbody]; exact body)
    have hmem : Call.csiDispatch ((identifierOf (marker ++ inter)).finalize final) (parametersOf params) ∈
        new.filter heard := by
      rw [hfilter]
      simp
    simp only [callsSince, Sequence.text]
    rw [hnew, drop_left]
    exact (mem_filter.mp hmem).1

end

theorem Sequence.call_mem_callsSince_decaln :
    let E := outputEngine true acceptAll (fun _ m => m)
    let s := Sequence.escape [0x23] 0x38 (all_eq_true.mp (by decide)) (by decide)
    s.call ∈ callsSince (new E false) (s.text.foldl (fun m c => processCharacter E c m) (new E false)) :=
  (Sequence.call_mem_callsSince (fun _ => rfl) rfl rfl rfl rfl _).2

/-! ## Ambiguity -/

/-- One identifier exactly for the same sequence, or an overlap in the lanes. -/
theorem identifier_eq_iff (s₁ s₂ : Sequence) (h₁ : s₁.collected.length ≤ 7) (h₂ : s₂.collected.length ≤ 7) :
    s₁.identifier = s₂.identifier ↔ (s₁.collected = s₂.collected ∧ s₁.final = s₂.final) ∨
        Overlap 8 s₁.collected s₁.final s₂.collected s₂.final ∨
        Overlap 8 s₂.collected s₂.final s₁.collected s₁.final := by
  rw [BitVec.toNat_eq]
  unfold Sequence.identifier
  rw [identifierOf_toNat s₁.fitsLane h₁, identifierOf_toNat s₂.fitsLane h₂]
  exact packed_eq_iff s₁.fitsLane s₂.fitsLane s₁.final_pos s₂.final_pos (by omega) (by omega)

theorem identifier_eq_iff_wide :
    let wide := Sequence.escape [] 0x3720 (by simp) (by decide)
    let decac1 := Sequence.escape [0x20] 0x37 (all_eq_true.mp (by decide)) (by decide)
    wide.identifier = decac1.identifier ∧ wide.final ≠ decac1.final := by
  intro wide decac1
  refine ⟨(identifier_eq_iff wide decac1 (by decide) (by decide)).mpr (Or.inr (Or.inl ?_)), by decide⟩
  exact Or.inr (Or.inl ⟨0x20, rfl, Or.inl (by decide)⟩)

/-- `ESC U+3720` is `ESC SP 7`, and `CSI U+7224` is `CSI $ r`. -/
theorem identifier_ambiguous :
    let E := outputEngine false acceptAll (fun _ m => m)
    let calls (text : List Wchar) := (processString E text (new E false)).calls
    calls [ESC, 0x3720] = calls [ESC, 0x20, 0x37] ∧
      (calls [ESC, 0x3720]).getLast? = some (.escDispatch (VTID.fromString [' ', '7'])) ∧
      calls [ESC, 0x5B, 0x7224] = calls [ESC, 0x5B, 0x24, 0x72] ∧
      (calls [ESC, 0x5B, 0x7224]).getLast? = some (.csiDispatch (VTID.fromString ['$', 'r']) []) := by
  decide

end Terminal.Parser
