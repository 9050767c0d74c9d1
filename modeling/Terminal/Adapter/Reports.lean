import Terminal.Adapter.CsiDispatch
import Terminal.Adapter.SgrItems

/-!
# Reports of settings (`DECRQSS`)

A setting is reported as the sequence that sets it, which restores it when sent back.
-/

variable (attr : TextAttribute)

namespace Terminal.Adapter

open Terminal.Parser Terminal.Buffer List

/-! ## Margins -/

structure Viewport where
  top : Nat
  bottom : Nat
  nonempty : top < bottom

variable (viewport : Viewport)

def Viewport.height : Nat := viewport.bottom - viewport.top

structure ScrollMargins where
  top : Nat := 0
  bottom : Nat := 0
deriving DecidableEq, Repr

/-- Margins with a top that is out of range are forgotten. -/
def ScrollMargins.inRange (margins : ScrollMargins) : ScrollMargins :=
  if margins.top ≥ viewport.height - 1 then {} else margins

def getVerticalMargins (absolute : Bool) (margins : ScrollMargins) : Nat × Nat :=
  let bottommostRow := viewport.height - 1
  let margins := margins.inRange viewport
  let marginsSet := margins.top < margins.bottom
  let topMargin := if marginsSet then margins.top else 0
  let bottomMargin := min (if marginsSet then margins.bottom else bottommostRow) bottommostRow
  if absolute then (topMargin + viewport.top, bottomMargin + viewport.top) else (topMargin, bottomMargin)

def doSetTopBottomScrollingMargins (topMargin bottomMargin : Nat) (margins : ScrollMargins) :
    ScrollMargins :=
  let screenHeight := viewport.height
  let actualTop := if topMargin = 0 then 1 else topMargin
  let actualBottom := if bottomMargin = 0 then screenHeight else bottomMargin
  if actualTop < actualBottom ∧ actualBottom ≤ screenHeight then
    -- margins at the edges of the screen are no margins
    if actualTop = 1 ∧ actualBottom = screenHeight then {} else { top := actualTop - 1, bottom := actualBottom - 1 }
  else margins

/-! ## The adapter -/

structure AdaptDispatch (R : Type) where
  attr : TextAttribute := {}
  scrollMargins : ScrollMargins := {}
  rectangularChangeExtent : Bool := false
  rest : R
deriving DecidableEq, Repr

/-- `none` is a value that is not an extent. -/
def changeExtent : Int → Option Bool
  | 0 => some false
  | 1 => some false
  | 2 => some true
  | _ => none

section

variable {R : Type}

def selectAttributeChangeExtent (extent : Int) (s : AdaptDispatch R) : Bool × AdaptDispatch R :=
  match changeExtent extent with
  | some rectangular => (true, { s with rectangularChangeExtent := rectangular })
  | none => (false, s)

/-- `home` is the cursor move after the margins are set. -/
def settingsHost (base : Host (AdaptDispatch R)) (home : AdaptDispatch R → R) (viewport : Viewport) :
    Host (AdaptDispatch R) :=
  { base with
    getCurrentAttributes := fun s => s.attr
    setTextAttributes := fun attr s => { s with attr := attr }
    setCurrentAttributes := fun attr s => { s with attr := attr }
    perform := fun call s =>
      match call with
      | .setTopBottomScrollingMargins topMargin bottomMargin =>
        let s := { s with scrollMargins :=
          doSetTopBottomScrollingMargins viewport topMargin.toNat bottomMargin.toNat s.scrollMargins }
        (true, { s with rest := home s })
      | .selectAttributeChangeExtent extent => selectAttributeChangeExtent extent s
      | call => base.perform call s }

def settingsReply (base : List Call → Reply) (calls : List Call) : Reply :=
  match calls.getLast? with
  | some (.csiDispatch id parameters) =>
    match CsiActionCodes.ofId id with
    | some .sgrSetGraphicsRendition => {}
    | some .decstbmSetScrollingRegion => {}
    | some .decscaSetCharacterProtectionAttribute => {}
    | some .decsaceSelectAttributeChangeExtent =>
      { success := (changeExtent (parameters.at' 0).toEnum).isSome }
    | _ => base calls
  | _ => base calls

/-! ## Reports -/

def validResponse : List Wchar := [ESC, 0x50, 0x31, 0x24, 0x72]

def stringTerminator : List Wchar := [ESC, 0x5C]

def addAttribute (parameter : Nat) (enabled : Bool) : List Wchar :=
  if enabled then 0x3B :: formatNat parameter else []

def addColor (base : Nat) : TextColor → List Wchar
  | .default => []
  | .index16 index => 0x3B :: formatNat (base + (if index.toNat ≥ 8 then 60 else 0) + index.toNat % 8)
  | .index256 index => 0x3B :: formatParams [base + 8, 5, index.toNat]
  | .rgb red green blue => 0x3B :: formatParams [base + 8, 2, red.toNat, green.toNat, blue.toNat]

open CharacterAttributes in
def reportedAttributes : List (Nat × CharacterAttributes) :=
  [(1, intense), (2, faint), (3, italics), (4, underlined), (5, blinking), (7, reverseVideo), (8, invisible),
    (9, crossedOut), (21, doublyUnderlined), (53, topGridline)]

def reportSGRSetting : List Wchar :=
  [0x30] ++ reportedAttributes.flatMap (fun p => addAttribute p.1 (attr.isFlagSet p.2)) ++
    addColor 30 attr.foreground ++ addColor 40 attr.background ++ [0x6D]

def reportDECSTBMSetting (margins : ScrollMargins) : List Wchar :=
  let (marginTop, marginBottom) := getVerticalMargins viewport false margins
  formatParams [marginTop + 1, marginBottom + 1] ++ [0x72]

def reportDECSCASetting : List Wchar := [if attr.isProtected then 0x31 else 0x30, 0x22, 0x71]

def reportDECSACESetting (rectangularChangeExtent : Bool) : List Wchar :=
  [if rectangularChangeExtent then 0x32 else 0x31, 0x2A, 0x78]

/-- The response to an identifier, and the state after it. -/
def reportSetting (id : VTID) (s : AdaptDispatch R) : List Wchar × AdaptDispatch R :=
  if id = VTID.fromString ['m'] then (validResponse ++ reportSGRSetting s.attr ++ stringTerminator, s)
  else if id = VTID.fromString ['r'] then
    (validResponse ++ reportDECSTBMSetting viewport s.scrollMargins ++ stringTerminator,
      { s with scrollMargins := s.scrollMargins.inRange viewport })
  else if id = VTID.fromString ['\x22', 'q'] then
    (validResponse ++ reportDECSCASetting s.attr ++ stringTerminator, s)
  else if id = VTID.fromString ['*', 'x'] then
    (validResponse ++ reportDECSACESetting s.rectangularChangeExtent ++ stringTerminator, s)
  else ([ESC, 0x50, 0x30, 0x24, 0x72] ++ stringTerminator, s)

/-- `RequestSetting`; `none` is a string without a final. -/
def requestSetting (viewport : Viewport) (s : AdaptDispatch R) :
    VTIDBuilder → List Wchar → Option (List Wchar × AdaptDispatch R)
  | _, [] => none
  | idBuilder, ch :: data =>
    if 0x40 ≤ ch ∧ ch ≤ 0x7E then some (reportSetting viewport (idBuilder.finalize ch) s)
    else if 0x20 ≤ ch ∧ ch ≤ 0x2F then requestSetting viewport s (idBuilder.addIntermediate ch) data
    else requestSetting viewport s idBuilder data

end

/-! ## SGR -/

def moreParams (ns : List Nat) : List Wchar := ns.flatMap fun n => 0x3B :: formatNat n

theorem formatParams_cons (n : Nat) (ns : List Nat) : formatParams (n :: ns) = formatNat n ++ moreParams ns := by
  induction ns generalizing n with
  | nil => rw [formatParams_singleton, moreParams, flatMap_nil, append_nil]
  | cons n' ns ih =>
    rw [formatParams_cons_cons, ih]
    rfl

theorem moreParams_append (a b : List Nat) : moreParams (a ++ b) = moreParams a ++ moreParams b := flatMap_append

def flagItems : List SgrItem :=
  (reportedAttributes.filter fun p => attr.isFlagSet p.2).map fun p => .option p.1

def colorItems (isForeground : Bool) : TextColor → List SgrItem
  | .default => []
  | .index16 index =>
    [.option ((if isForeground then 30 else 40) + (if index.toNat ≥ 8 then 60 else 0) + index.toNat % 8)]
  | .index256 index => [.index256 isForeground index]
  | .rgb red green blue => [.rgb isForeground red green blue]

def sgrItems : List SgrItem :=
  .option 0 :: (flagItems attr ++ colorItems true attr.foreground ++ colorItems false attr.background)

theorem addColor_eq (color : TextColor) (isForeground : Bool) :
    addColor (if isForeground then 30 else 40) color =
      moreParams ((colorItems isForeground color).flatMap SgrItem.params) := by
  have hextended : (if isForeground then 30 else 40) + 8 = SgrItem.extended isForeground := by
    cases isForeground <;> rfl
  cases color with
  | default => rfl
  | index16 index => simp [addColor, colorItems, SgrItem.params, moreParams]
  | index256 index =>
    unfold addColor
    rw [hextended]
    rfl
  | rgb red green blue =>
    unfold addColor
    rw [hextended]
    rfl

theorem addAttributes_eq (table : List (Nat × CharacterAttributes)) (attr : TextAttribute) :
    table.flatMap (fun p => addAttribute p.1 (attr.isFlagSet p.2)) =
      moreParams (((table.filter fun p => attr.isFlagSet p.2).map
        fun p => SgrItem.option p.1).flatMap SgrItem.params) := by
  induction table with
  | nil => rfl
  | cons p table ih =>
    rw [flatMap_cons, ih]
    rw [filter_cons]
    cases hset : attr.isFlagSet p.2 with
    | true => rfl
    | false => rfl

theorem reportSGRSetting_eq :
    reportSGRSetting attr = formatParams ((sgrItems attr).flatMap SgrItem.params) ++ [0x6D] := by
  have hcolor₁ := addColor_eq attr.foreground true
  have hcolor₂ := addColor_eq attr.background false
  have hzero (ns : List Nat) : formatParams ([0] ++ ns) = [0x30] ++ moreParams ns := formatParams_cons 0 ns
  unfold reportSGRSetting sgrItems flagItems
  rw [flatMap_cons, flatMap_append, flatMap_append, SgrItem.params, hzero, moreParams_append,
    moreParams_append, ← addAttributes_eq, ← hcolor₁, ← hcolor₂]
  rfl

theorem reported_option {p : Nat × CharacterAttributes} (h : p ∈ reportedAttributes) :
    (SgrItem.option p.1).apply = TextAttribute.updateFlag p.2 true ∧ p.2 ∈ trackedFlags ∧
      (SgrItem.option p.1).Complete ∧ p.1 ≤ 65535 := by
  simp only [reportedAttributes, mem_cons, not_mem_nil, or_false] at h
  rcases h with rfl | rfl | rfl | rfl | rfl | rfl | rfl | rfl | rfl | rfl <;>
    exact ⟨rfl, by decide, ⟨by decide, by decide⟩, by decide⟩

theorem reported_complete {flag : CharacterAttributes} (h : flag ∈ trackedFlags) :
    ∃ n, (n, flag) ∈ reportedAttributes := by
  simp only [trackedFlags, mem_cons, not_mem_nil, or_false] at h
  rcases h with rfl | rfl | rfl | rfl | rfl | rfl | rfl | rfl | rfl | rfl
  exacts [⟨1, by decide⟩, ⟨2, by decide⟩, ⟨3, by decide⟩, ⟨4, by decide⟩, ⟨21, by decide⟩, ⟨53, by decide⟩,
    ⟨5, by decide⟩, ⟨8, by decide⟩, ⟨9, by decide⟩, ⟨7, by decide⟩]

theorem foldl_flags (ps : List (Nat × CharacterAttributes)) (hps : ∀ p ∈ ps, p ∈ reportedAttributes)
    (attr : TextAttribute) :
    let r := (ps.map fun p => SgrItem.option p.1).foldl (fun attr item => item.apply attr) attr
    r.foreground = attr.foreground ∧ r.background = attr.background ∧
      ∀ flag ∈ trackedFlags, r.isFlagSet flag = (decide (flag ∈ ps.map Prod.snd) || attr.isFlagSet flag) := by
  induction ps generalizing attr with
  | nil => exact ⟨rfl, rfl, fun _ _ => rfl⟩
  | cons p ps ih =>
    obtain ⟨happly, htracked, -, -⟩ := reported_option (hps p mem_cons_self)
    obtain ⟨hfg, hbg, hflags⟩ := ih (fun q hq => hps q (mem_cons_of_mem p hq)) (attr.updateFlag p.2 true)
    rw [map_cons, foldl_cons, happly]
    refine ⟨hfg, hbg, ?_⟩
    intro flag hflag
    rw [hflags flag hflag, isFlagSet_updateFlag htracked hflag]
    by_cases heq : flag = p.2
    · simp [heq]
    · rw [if_neg heq]
      congr 1
      simp [heq]

theorem foldl_flagItems (attr start : TextAttribute) (hstart : ∀ flag ∈ trackedFlags, start.isFlagSet flag = false) :
    let r := (flagItems attr).foldl (fun attr item => item.apply attr) start
    r.foreground = start.foreground ∧ r.background = start.background ∧
      ∀ flag ∈ trackedFlags, r.isFlagSet flag = attr.isFlagSet flag := by
  have hsub : ∀ p ∈ reportedAttributes.filter (fun p => attr.isFlagSet p.2), p ∈ reportedAttributes := by
    intro p hp
    exact (mem_filter.mp hp).1
  obtain ⟨hfg, hbg, hflags⟩ := foldl_flags _ hsub start
  refine ⟨hfg, hbg, ?_⟩
  intro flag hflag
  unfold flagItems
  rw [hflags flag hflag, hstart flag hflag, Bool.or_false]
  cases hset : attr.isFlagSet flag with
  | true =>
    obtain ⟨n, hn⟩ := reported_complete hflag
    rw [decide_eq_true_eq]
    exact mem_map.mpr ⟨(n, flag), mem_filter.mpr ⟨hn, hset⟩, rfl⟩
  | false =>
    rw [decide_eq_false_iff_not]
    intro hmem
    obtain ⟨p, hp, rfl⟩ := mem_map.mp hmem
    have := (mem_filter.mp hp).2
    rw [hset] at this
    cases this

theorem color16_spec : ∀ k < 16, ∀ isForeground : Bool,
    let value := (if isForeground then 30 else 40) + (if k ≥ 8 then 60 else 0) + k % 8
    GraphicsOptions.ofInt (value : Nat) =
      if isForeground then .foreground (BitVec.ofNat 8 k) else .background (BitVec.ofNat 8 k) := by
  decide

theorem colorItems_complete {color : TextColor} (hcolor : properColor color) (isForeground : Bool) :
    ∀ item ∈ colorItems isForeground color, item.Complete := by
  intro item hitem
  cases color with
  | default => cases hitem
  | index16 index =>
    rw [mem_singleton.mp hitem]
    have hoption := color16_spec index.toNat hcolor isForeground
    unfold SgrItem.Complete
    dsimp only at hoption ⊢
    rw [hoption]
    cases isForeground <;> simp
  | index256 index =>
    rw [mem_singleton.mp hitem]
    trivial
  | rgb red green blue =>
    rw [mem_singleton.mp hitem]
    trivial

theorem foldl_colorItems {color : TextColor} (hcolor : properColor color) (isForeground : Bool) (attr : TextAttribute)
    (hdefault : attr.setColor .default isForeground = attr) :
    (colorItems isForeground color).foldl (fun attr item => item.apply attr) attr =
      attr.setColor color isForeground := by
  cases color with
  | default => exact hdefault.symm
  | index16 index =>
    have hoption := color16_spec index.toNat hcolor isForeground
    rw [BitVec.ofNat_toNat] at hoption
    unfold colorItems
    rw [foldl_cons]
    unfold SgrItem.apply
    dsimp only
    rw [hoption]
    cases isForeground <;> rfl
  | index256 index => rfl
  | rgb red green blue => rfl

theorem foldl_sgrItems {attr : TextAttribute} (hforeground : properColor attr.foreground)
    (hbackground : properColor attr.background) (start : TextAttribute) :
    let r := (sgrItems attr).foldl (fun attr item => item.apply attr) start
    r.foreground = attr.foreground ∧ r.background = attr.background ∧
      ∀ flag ∈ trackedFlags, r.isFlagSet flag = attr.isFlagSet flag := by
  obtain ⟨hfg, hbg, hflags⟩ := foldl_flagItems attr (applyRendition .off start) (fun _ hflag => isFlagSet_reset hflag _)
  have hreset : (SgrItem.option 0).apply start = applyRendition .off start := rfl
  unfold sgrItems
  rw [foldl_cons, foldl_append, foldl_append, hreset]
  generalize (flagItems attr).foldl (fun attr item => item.apply attr) (applyRendition .off start) = flagged
    at hfg hbg hflags
  -- both colours are the default ones before they are set
  have hdefaultFg : flagged.setColor .default true = flagged := by
    rw [show TextColor.default = flagged.foreground from hfg.symm]
    rfl
  have hdefaultBg : (flagged.setColor attr.foreground true).setColor .default false =
      flagged.setColor attr.foreground true := by
    rw [show TextColor.default = flagged.background from hbg.symm]
    rfl
  rw [foldl_colorItems hforeground true flagged hdefaultFg, foldl_colorItems hbackground false _ hdefaultBg]
  exact ⟨rfl, rfl, hflags⟩

theorem sgrItems_complete {attr : TextAttribute} (hforeground : properColor attr.foreground)
    (hbackground : properColor attr.background) : ∀ item ∈ sgrItems attr, item.Complete := by
  intro item hitem
  simp only [sgrItems, flagItems, mem_cons, mem_append, mem_map] at hitem
  rcases hitem with rfl | (⟨p, hp, rfl⟩ | hitem) | hitem
  · exact ⟨by decide, by decide⟩
  · exact (reported_option (mem_filter.mp hp).1).2.2.1
  · exact colorItems_complete hforeground true item hitem
  · exact colorItems_complete hbackground false item hitem

theorem params_small (color : TextColor) (isForeground : Bool) :
    ((colorItems isForeground color).flatMap SgrItem.params).length ≤ 5 ∧
      ∀ n ∈ (colorItems isForeground color).flatMap SgrItem.params, n ≤ 65535 := by
  have hextended : SgrItem.extended isForeground ≤ 48 := by cases isForeground <;> decide
  have hbase : (if isForeground then 30 else 40) ≤ 40 := by cases isForeground <;> decide
  cases color with
  | default => simp [colorItems]
  | index16 index =>
    simp only [colorItems, flatMap_cons, flatMap_nil, SgrItem.params, append_nil, mem_singleton, length_singleton]
    refine ⟨by decide, ?_⟩
    have hbright : (if index.toNat ≥ 8 then 60 else 0) ≤ 60 := by split <;> decide
    omega
  | index256 index =>
    simp only [colorItems, flatMap_cons, flatMap_nil, SgrItem.params, append_nil, mem_cons, not_mem_nil, or_false]
    refine ⟨by simp, ?_⟩
    rintro n (rfl | rfl | rfl) <;> omega
  | rgb red green blue =>
    simp only [colorItems, flatMap_cons, flatMap_nil, SgrItem.params, append_nil, mem_cons, not_mem_nil, or_false]
    refine ⟨by simp, ?_⟩
    rintro n (rfl | rfl | rfl | rfl | rfl) <;> omega

theorem sgrItems_small : ((sgrItems attr).flatMap SgrItem.params).length ≤ 32 ∧
      ∀ n ∈ (sgrItems attr).flatMap SgrItem.params, n ≤ 65535 := by
  obtain ⟨hlength₁, hsmall₁⟩ := params_small attr.foreground true
  obtain ⟨hlength₂, hsmall₂⟩ := params_small attr.background false
  have hflags : (flagItems attr).flatMap SgrItem.params =
      (reportedAttributes.filter fun p => attr.isFlagSet p.2).map Prod.fst := by
    unfold flagItems
    rw [flatMap_map]
    exact map_eq_flatMap.symm
  have hcount : (reportedAttributes.filter fun p => attr.isFlagSet p.2).length ≤ 10 := length_filter_le _ _
  unfold sgrItems
  simp only [flatMap_cons, flatMap_append, hflags, SgrItem.params, length_append, length_map,
    length_singleton, mem_append, mem_singleton]
  refine ⟨by omega, ?_⟩
  rintro n (rfl | (hn | hn) | hn)
  · decide
  · obtain ⟨p, hp, rfl⟩ := mem_map.mp hn
    exact (reported_option (mem_filter.mp hp).1).2.2.2
  · exact hsmall₁ n hn
  · exact hsmall₂ n hn

/-! ## Margins restored -/

theorem getVerticalMargins_lt (hheight : 2 ≤ viewport.height) (margins : ScrollMargins) :
    (getVerticalMargins viewport false margins).1 < (getVerticalMargins viewport false margins).2 ∧
      (getVerticalMargins viewport false margins).2 < viewport.height := by
  unfold getVerticalMargins ScrollMargins.inRange
  simp only [Bool.false_eq_true]
  split_ifs <;> simp_all <;> omega

theorem getVerticalMargins_set {top bottom : Nat} (hlt : top < bottom)
    (hbottom : bottom < viewport.height) (margins : ScrollMargins) :
    getVerticalMargins viewport false (doSetTopBottomScrollingMargins viewport (top + 1) (bottom + 1) margins) =
      (top, bottom) := by
  have hset : doSetTopBottomScrollingMargins viewport (top + 1) (bottom + 1) margins =
      if top = 0 ∧ bottom + 1 = viewport.height then {} else { top := top, bottom := bottom } := by
    unfold doSetTopBottomScrollingMargins
    simp only [Nat.add_one_ne_zero, if_false]
    rw [if_pos (by omega)]
    simp
  rw [hset]
  by_cases hfull : top = 0 ∧ bottom + 1 = viewport.height
  · obtain ⟨rfl, hrow⟩ := hfull
    have hrange : ScrollMargins.inRange viewport {} = {} := by
      unfold ScrollMargins.inRange
      split <;> rfl
    rw [if_pos ⟨rfl, hrow⟩]
    unfold getVerticalMargins
    rw [hrange, ← hrow]
    simp
  · have hrange : ScrollMargins.inRange viewport { top := top, bottom := bottom } =
      { top := top, bottom := bottom } := by
      unfold ScrollMargins.inRange
      rw [if_neg (by dsimp only; omega)]
    have hmin : min bottom (viewport.height - 1) = bottom := Nat.min_eq_left (by omega)
    rw [if_neg hfull]
    unfold getVerticalMargins
    rw [hrange]
    simp only [hlt, if_true, hmin, Bool.false_eq_true, if_false]

theorem getVerticalMargins_congr {viewport : Viewport} {margins margins' : ScrollMargins}
    (h : getVerticalMargins viewport false margins = getVerticalMargins viewport false margins') (absolute : Bool) :
    getVerticalMargins viewport absolute margins = getVerticalMargins viewport absolute margins' := by
  cases absolute with
  | false => exact h
  | true =>
    have hshift (m : ScrollMargins) : getVerticalMargins viewport true m =
        ((getVerticalMargins viewport false m).1 + viewport.top,
          (getVerticalMargins viewport false m).2 + viewport.top) := rfl
    rw [hshift, hshift, h]

/-! ## Sending the report back -/

inductive Setting
  | sgr | decstbm | decsca | decsace
deriving DecidableEq, Repr

namespace Setting

def inter : Setting → List Wchar
  | .sgr | .decstbm => []
  | .decsca => [0x22]
  | .decsace => [0x2A]

def final : Setting → Wchar
  | .sgr => 0x6D
  | .decstbm => 0x72
  | .decsca => 0x71
  | .decsace => 0x78

def request (setting : Setting) : List Wchar := setting.inter ++ [setting.final]

def code : Setting → CsiActionCodes
  | .sgr => .sgrSetGraphicsRendition
  | .decstbm => .decstbmSetScrollingRegion
  | .decsca => .decscaSetCharacterProtectionAttribute
  | .decsace => .decsaceSelectAttributeChangeExtent

def Restored {R : Type} (viewport : Viewport) (s s' : AdaptDispatch R) : Setting → Prop
  | .sgr => s'.attr.foreground = s.attr.foreground ∧ s'.attr.background = s.attr.background ∧
      ∀ flag ∈ trackedFlags, s'.attr.isFlagSet flag = s.attr.isFlagSet flag
  | .decstbm => ∀ absolute, getVerticalMargins viewport absolute s'.scrollMargins =
      getVerticalMargins viewport absolute s.scrollMargins
  | .decsca => s'.attr.isProtected = s.attr.isProtected
  | .decsace => s'.rectangularChangeExtent = s.rectangularChangeExtent

def numbers {R : Type} (viewport : Viewport) (s : AdaptDispatch R) : Setting → List Nat
  | .sgr => (sgrItems s.attr).flatMap SgrItem.params
  | .decstbm => [(getVerticalMargins viewport false s.scrollMargins).1 + 1,
      (getVerticalMargins viewport false s.scrollMargins).2 + 1]
  | .decsca => [if s.attr.isProtected then 1 else 0]
  | .decsace => [if s.rectangularChangeExtent then 2 else 1]

def payload {R : Type} (viewport : Viewport) (s : AdaptDispatch R) (setting : Setting) : List Wchar :=
  formatParams (setting.numbers viewport s) ++ setting.inter ++ [setting.final]

theorem identifier (setting : Setting) : (identifierOf setting.inter).finalize setting.final = setting.code.code := by
  cases setting <;> decide

end Setting

section

variable {R : Type} (viewport : Viewport) (s : AdaptDispatch R)

theorem requestSetting_payload (setting : Setting) : (requestSetting viewport s {} setting.request).map Prod.fst =
      some (validResponse ++ setting.payload viewport s ++ stringTerminator) := by
  cases setting with
  | sgr =>
    change some (validResponse ++ reportSGRSetting s.attr ++ stringTerminator) = _
    rw [reportSGRSetting_eq]
    simp [Setting.payload, Setting.numbers, Setting.inter, Setting.final]
  | decstbm =>
    change some (validResponse ++ reportDECSTBMSetting viewport s.scrollMargins ++ stringTerminator) = _
    simp [Setting.payload, Setting.numbers, Setting.inter, Setting.final, reportDECSTBMSetting]
  | decsca =>
    change some (validResponse ++ reportDECSCASetting s.attr ++ stringTerminator) = _
    unfold Setting.payload Setting.numbers reportDECSCASetting
    cases s.attr.isProtected <;> rfl
  | decsace =>
    change some (validResponse ++ reportDECSACESetting s.rectangularChangeExtent ++ stringTerminator) = _
    unfold Setting.payload Setting.numbers reportDECSACESetting
    cases s.rectangularChangeExtent <;> rfl

theorem numbers_small (hheight : 2 ≤ viewport.height) (hlimit : viewport.height ≤ 65535) (setting : Setting) :
    setting.numbers viewport s ≠ [] ∧ (setting.numbers viewport s).length ≤ 32 ∧
      ∀ n ∈ setting.numbers viewport s, n ≤ 65535 := by
  cases setting with
  | sgr =>
    obtain ⟨hlength, hsmall⟩ := sgrItems_small s.attr
    refine ⟨?_, hlength, hsmall⟩
    simp [Setting.numbers, sgrItems, SgrItem.params]
  | decstbm =>
    obtain ⟨hlt, hbottom⟩ := getVerticalMargins_lt viewport hheight s.scrollMargins
    refine ⟨cons_ne_nil _ _, by simp [Setting.numbers], ?_⟩
    simp only [Setting.numbers, mem_cons, not_mem_nil, or_false]
    rintro n (rfl | rfl) <;> omega
  | decsca =>
    unfold Setting.numbers
    cases s.attr.isProtected <;> simp
  | decsace =>
    unfold Setting.numbers
    cases s.rectangularChangeExtent <;> simp

theorem actionCsiDispatch_call {S : Type} {host : Host S} {code : CsiActionCodes} {ps : VTParameters}
    {e : OutputStateMachineEngine S} {c : TermDispatch} {s' : S}
    (hcalls : csiCalls e.lastPrintedChar ps code = some (true, [c]))
    (hc : adaptDispatch host e.dispatch c = some (true, s')) :
    actionCsiDispatch host code.code ps e = some (true, { dispatch := s' }) := by
  unfold actionCsiDispatch
  simp [CsiActionCodes.ofId_code, hcalls, dispatchAll, hc]

theorem actionCsiDispatch_restores (base : Host (AdaptDispatch R)) (home : AdaptDispatch R → R)
    (hheight : 2 ≤ viewport.height) (hforeground : properColor s.attr.foreground)
    (hbackground : properColor s.attr.background) (setting : Setting)
    (e : OutputStateMachineEngine (AdaptDispatch R)) :
    ∃ e', actionCsiDispatch (settingsHost base home viewport) setting.code.code (given (setting.numbers viewport s)) e =
      some (true, e') ∧ setting.Restored viewport s e'.dispatch := by
  cases setting with
  | sgr =>
    have happly := applyGraphicsOptions_items (cons_ne_nil _ _)
      (sgrItems_complete hforeground hbackground) e.dispatch.attr
    have hcall : adaptDispatch (settingsHost base home viewport) e.dispatch
        (.setGraphicsRendition (given (Setting.sgr.numbers viewport s))) =
        some (true, { e.dispatch with
          attr := (sgrItems s.attr).foldl (fun attr item => item.apply attr) e.dispatch.attr }) := by
      change (applyGraphicsOptions (given ((sgrItems s.attr).flatMap SgrItem.params)) e.dispatch.attr >>= _) = _
      rw [sgrItems, happly]
      rfl
    exact ⟨_, actionCsiDispatch_call rfl hcall, foldl_sgrItems hforeground hbackground _⟩
  | decstbm =>
    obtain ⟨hlt, hbottom⟩ := getVerticalMargins_lt viewport hheight s.scrollMargins
    have hrows := getVerticalMargins_set viewport hlt hbottom e.dispatch.scrollMargins
    exact ⟨_, actionCsiDispatch_call rfl rfl, getVerticalMargins_congr hrows⟩
  | decsca =>
    refine ⟨_, actionCsiDispatch_call rfl rfl, ?_⟩
    unfold Setting.Restored Setting.numbers
    cases s.attr.isProtected with
    | true => exact isProtected_setProtected true _
    | false => exact isProtected_setProtected false _
  | decsace =>
    unfold Setting.Restored Setting.numbers
    cases s.rectangularChangeExtent with
    | true => exact ⟨_, actionCsiDispatch_call rfl rfl, rfl⟩
    | false => exact ⟨_, actionCsiDispatch_call rfl rfl, rfl⟩

theorem csiBody_payload (setting : Setting) :
    CsiBody (formatParams (setting.numbers viewport s) ++ setting.inter) [] (formatParams (setting.numbers viewport s))
      setting.inter := by
  refine ⟨rfl, by simp, by simp, isParam_of_mem_formatParams _, ?_⟩
  cases setting <;> simp [Setting.inter] <;> decide

theorem engineRun_dispatch {S : Type} (host : Host S)
    (other : Call → OutputStateMachineEngine S → OutputStateMachineEngine S) (m : StateMachine) (id : VTID)
    (ps : VTParameters) (e : OutputStateMachineEngine S) :
    ∃ e₁, engineRun host other (printsBefore m ++ [.clear, .clear, .csiDispatch id ps]) e =
      (actionCsiDispatch host id ps e₁).map Prod.snd := by
  unfold printsBefore engineRun
  cases m.processingIndividually with
  | true =>
    refine ⟨other .clear (other .clear e), ?_⟩
    simp [engineStep]
  | false =>
    refine ⟨other .clear (other .clear (other (.printString []) e)), ?_⟩
    simp [engineStep]

theorem inert_settings (terminal : Bool) (reply : List Call → Reply) (inject : List Wchar → StateMachine → StateMachine)
    (setting : Setting) :
    let E := outputEngine terminal (settingsReply reply) inject
    Inert E (.printString []) ∧ Inert E .clear ∧
      Inert E (.csiDispatch setting.code.code (given (setting.numbers viewport s))) := by
  intro E
  have hplain (c : Call) (hc : c = .printString [] ∨ c = .clear) : Inert E c := by
    refine ⟨?_, ?_, ?_⟩ <;> intro calls <;> rcases hc with rfl | rfl <;> simp [E, outputEngine]
  have hreply (calls : List Call) :
      E.dispatch (calls ++ [.csiDispatch setting.code.code (given (setting.numbers viewport s))]) = {} := by
    simp only [E, outputEngine, settingsReply, getLast?_concat, CsiActionCodes.ofId_code]
    cases setting with
    | decsace =>
      unfold Setting.numbers
      cases s.rectangularChangeExtent <;> rfl
    | _ => rfl
  refine ⟨hplain _ (Or.inl rfl), hplain _ (Or.inr rfl), ?_, ?_, ?_⟩
  · intro calls
    rw [hreply]
  · intro calls
    rw [hreply]
  · intro calls
    rw [hreply]
    simp [E, outputEngine]

/-- The response, sent back to a parser at rest, restores the setting. -/
theorem requestSetting_restores (base : Host (AdaptDispatch R)) (home : AdaptDispatch R → R) (terminal : Bool)
    (reply : List Call → Reply) (inject : List Wchar → StateMachine → StateMachine)
    (other : Call → OutputStateMachineEngine (AdaptDispatch R) → OutputStateMachineEngine (AdaptDispatch R))
    (viewport : Viewport) (hheight : 2 ≤ viewport.height) (hlimit : viewport.height ≤ 65535) (setting : Setting)
    (s : AdaptDispatch R) (hforeground : properColor s.attr.foreground) (hbackground : properColor s.attr.background)
    (m : StateMachine) (hm : m.AtRest) (e : OutputStateMachineEngine (AdaptDispatch R)) :
    ∃ payload, (requestSetting viewport s {} setting.request).map Prod.fst =
        some (validResponse ++ payload ++ stringTerminator) ∧
      let k := m.processString (outputEngine terminal (settingsReply reply) inject) ([ESC, 0x5B] ++ payload)
      k.AtRest ∧ ∃ e', engineRun (settingsHost base home viewport) other (callsSince m k) e = some e' ∧
        setting.Restored viewport s e'.dispatch := by
  refine ⟨setting.payload viewport s, requestSetting_payload viewport s setting, ?_⟩
  intro k
  obtain ⟨hne, hlength, hsmall⟩ := numbers_small viewport s hheight hlimit setting
  obtain ⟨hprint, hclear, hdispatch⟩ := inert_settings viewport s terminal reply inject setting
  have hparams := parametersOf_given hne hlength hsmall
  have hfinal : isFinal setting.final = true := by cases setting <;> decide
  rw [← hparams, ← setting.identifier] at hdispatch
  obtain ⟨hrest, -, -, hcalls⟩ := processString_csi hprint hclear hm
    (csiBody_payload viewport s setting) hfinal hdispatch
  refine ⟨hrest, ?_⟩
  have hsince : callsSince m k =
      printsBefore m ++ [.clear, .clear, .csiDispatch setting.code.code (given (setting.numbers viewport s))] := by
    unfold callsSince
    rw [show k.calls = _ from hcalls, drop_left, nil_append, setting.identifier, hparams]
  obtain ⟨e₁, hrun⟩ := engineRun_dispatch (settingsHost base home viewport) other m setting.code.code
    (given (setting.numbers viewport s)) e
  obtain ⟨e', he', hrestored⟩ := actionCsiDispatch_restores viewport s base home hheight hforeground
    hbackground setting e₁
  refine ⟨e', ?_, hrestored⟩
  rw [hsince, hrun, he']
  rfl

end

def plainHost : Host (AdaptDispatch Unit) where
  isConsolePty := false
  getCurrentAttributes s := s.attr
  setTextAttributes _ s := s
  setCurrentAttributes _ s := s
  triggerFlush s := s
  playMidiNote _ _ _ s := s
  changeRectOrStreamAttributes _ _ _ _ _ s := s
  sgrPush _ _ s := s
  sgrPop attr s := (attr, s)
  perform _ s := (true, s)

def sendBack (viewport : Viewport) (text : List Wchar) (s : AdaptDispatch Unit) : Option (AdaptDispatch Unit) :=
  let E := outputEngine false (settingsReply fun _ => {}) (fun _ m => m)
  let m := StateMachine.new E false
  let calls := callsSince m (m.processString E ([ESC, 0x5B] ++ text))
  (engineRun (settingsHost plainHost (fun _ => ()) viewport) (fun _ e => e) calls { dispatch := s }).map (·.dispatch)

theorem requestSetting_restores_margins :
    let viewport : Viewport := { top := 100, bottom := 124, nonempty := by decide }
    let s : AdaptDispatch Unit := { scrollMargins := { top := 2, bottom := 8 }, rest := () }
    let E := outputEngine false (settingsReply fun _ => {}) (fun _ m => m)
    let m := StateMachine.new E false
    ∃ payload, (requestSetting viewport s {} [0x72]).map Prod.fst =
      some (validResponse ++ payload ++ stringTerminator) ∧
      let k := m.processString E ([ESC, 0x5B] ++ payload)
      k.AtRest ∧ ∃ e', engineRun (settingsHost plainHost (fun _ => ()) viewport) (fun _ e => e) (callsSince m k)
          { dispatch := { rest := () } } = some e' ∧ Setting.decstbm.Restored viewport s e'.dispatch := by
  intro viewport s E m
  exact requestSetting_restores plainHost (fun _ => ()) false (fun _ => {}) (fun _ m => m) (fun _ e => e) viewport
    (by decide) (by decide) .decstbm s trivial trivial m ⟨rfl, rfl, rfl⟩ { dispatch := { rest := () } }

/-- The left grid line has no option, and a viewport may have too many rows. -/
theorem requestSetting_loses : (let viewport : Viewport := { top := 0, bottom := 24, nonempty := by decide }
      let s : AdaptDispatch Unit := { attr := { attrs := 0x800 }, rest := () }
      (requestSetting viewport s {} [0x6D]).map Prod.fst = some (validResponse ++ [0x30, 0x6D] ++ stringTerminator) ∧
        ∃ s', sendBack viewport [0x30, 0x6D] { rest := () } = some s' ∧
          s'.attr.attrs &&& CharacterAttributes.rendition ≠ s.attr.attrs &&& CharacterAttributes.rendition) ∧
    (let viewport : Viewport := { top := 0, bottom := 70000, nonempty := by decide }
      let s : AdaptDispatch Unit := { rest := () }
      let payload : List Wchar := [0x31, 0x3B, 0x37, 0x30, 0x30, 0x30, 0x30, 0x72]
      (requestSetting viewport s {} [0x72]).map Prod.fst = some (validResponse ++ payload ++ stringTerminator) ∧
        ∃ s', sendBack viewport payload s = some s' ∧
          getVerticalMargins viewport false s'.scrollMargins ≠ getVerticalMargins viewport false s.scrollMargins) := by
  refine ⟨⟨by decide, _, rfl, by decide⟩, ⟨by decide, _, rfl, by decide⟩⟩

end Terminal.Adapter
