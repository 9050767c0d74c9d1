import Terminal.Renderer.VtAttributes

/-!
# The terminal follows the engine

Over any run of brush updates, what the engine remembers is what the terminal has. At the end of
an update both are what was asked for.
-/

namespace Terminal.Renderer

open Terminal.Parser (Wchar formatNat formatParams parametersOf numeric_of_mem_formatNat idParameter parseHyperlink)
open Terminal.Buffer Terminal.Adapter GraphicsOptions List

/-! ## Agreement -/

/-- The terminal has the colours, rendition and hyperlink of the attribute. -/
structure Agrees (t : Connected) (attr : TextAttribute) : Prop where
  foreground : t.attr.foreground = attr.foreground
  background : t.attr.background = attr.background
  rendition : ∀ flag ∈ trackedFlags, t.attr.isFlagSet flag = attr.isFlagSet flag
  linked : t.linked = attr.isHyperlink

/-- It does to the terminal what `change` does to the engine. -/
def Sends (sequence : VtSequence) (change : TextAttribute → TextAttribute) : Prop :=
  ∀ t attr, Agrees t attr → Agrees (t.receive sequence) (change attr)

theorem receive_item {item : SgrItem} (hitem : item.Complete) (hsmall : ∀ n ∈ item.params, n ≤ 65535) (t : Connected) :
    t.receive (.sgr [item]) = { t with attr := item.apply t.attr } := by
  have hlength : item.params.length ≤ 32 := by
    cases item <;> simp [SgrItem.params]
  have hparams := parametersOf_given (length_pos_iff.mp item.params_length_pos) hlength hsmall
  have happly := applyGraphicsOptions_items (cons_ne_nil item [])
    (fun i hi => by rw [mem_singleton.mp hi]; exact hitem) t.attr
  unfold Connected.receive
  simp only [flatMap_cons, flatMap_nil, append_nil] at happly ⊢
  rw [hparams, happly]
  rfl

theorem receive_reset (t : Connected) :
    t.receive setGraphicsDefault = { t with attr := applyRendition .off t.attr } := rfl

theorem sends_option {value : Nat} {option : GraphicsOptions} {change : TextAttribute → TextAttribute}
    (hvalue : value ≤ 65535) (hoption : ofInt value = option) (hforeground : option ≠ .foregroundExtended)
    (hbackground : option ≠ .backgroundExtended)
    (hchange : ∀ t attr, Agrees t attr → Agrees { t with attr := applyRendition option t.attr } (change attr)) :
    Sends (.sgr [.option value]) change := by
  subst hoption
  intro t attr h
  have hcomplete : (SgrItem.option value).Complete := ⟨hforeground, hbackground⟩
  rw [receive_item hcomplete (by simpa [SgrItem.params] using hvalue)]
  exact hchange t attr h

theorem agrees_updateFlag {flag : CharacterAttributes} (hflag : flag ∈ trackedFlags) (isSet : Bool) (t : Connected)
    (attr : TextAttribute) (h : Agrees t attr) :
    Agrees { t with attr := t.attr.updateFlag flag isSet } (attr.updateFlag flag isSet) := by
  refine ⟨h.foreground, h.background, ?_, h.linked⟩
  intro other hother
  rw [isFlagSet_updateFlag hflag hother, isFlagSet_updateFlag hflag hother, h.rendition other hother]

theorem agrees_setColor (color : TextColor) (fg : Bool) (t : Connected) (attr : TextAttribute) (h : Agrees t attr) :
    Agrees { t with attr := t.attr.setColor color fg } (attr.setColor color fg) := by
  cases fg with
  | true => exact ⟨rfl, h.background, h.rendition, h.linked⟩
  | false => exact ⟨h.foreground, rfl, h.rendition, h.linked⟩

theorem sends_reset : Sends setGraphicsDefault
    fun attr => attr.setDefaultBackground.setDefaultForeground.setDefaultRenditionAttributes := by
  intro t attr h
  rw [receive_reset]
  refine ⟨rfl, rfl, ?_, h.linked⟩
  intro flag hflag
  exact (isFlagSet_reset hflag _).trans (isFlagSet_reset hflag _).symm

theorem option16_spec : ∀ k < 16, ∀ fg : Bool,
    let index := BitVec.ofNat 8 k
    let value := (if index &&& 8 != 0 then (if fg then 90 else 100) else (if fg then 30 else 40)) + (index &&& 7).toNat
    value ≤ 65535 ∧ ofInt (value : Nat) = if fg then .foreground index else .background index := by
  decide

theorem sends_color {color : TextColor} (hcolor : properColor color) (fg : Bool) :
    Sends (VtEngine.colorSequence color fg) (·.setColor color fg) := by
  cases color with
  | default =>
    cases fg with
    | true => exact sends_option (by decide) rfl (by decide) (by decide) (agrees_setColor .default true)
    | false => exact sends_option (by decide) rfl (by decide) (by decide) (agrees_setColor .default false)
  | index16 index =>
    obtain ⟨hsmall, hoption⟩ := option16_spec index.toNat hcolor fg
    simp only [BitVec.ofNat_toNat, BitVec.setWidth_eq] at hsmall hoption
    apply sends_option hsmall hoption
    · cases fg <;> simp
    · cases fg <;> simp
    · cases fg with
      | true => exact agrees_setColor (.index16 index) true
      | false => exact agrees_setColor (.index16 index) false
  | index256 index =>
    intro t attr h
    have hindex : ∀ n ∈ (SgrItem.index256 fg index).params, n ≤ 65535 := by
      have := index.isLt
      cases fg <;> simp [SgrItem.params, SgrItem.extended] <;> omega
    have hcomplete : (SgrItem.index256 fg index).Complete := trivial
    unfold VtEngine.colorSequence setGraphicsRendition256Color
    rw [receive_item hcomplete hindex]
    exact agrees_setColor _ _ t attr h
  | rgb red green blue =>
    intro t attr h
    have hbytes : ∀ n ∈ (SgrItem.rgb fg red green blue).params, n ≤ 65535 := by
      have := red.isLt
      have := green.isLt
      have := blue.isLt
      cases fg <;> simp [SgrItem.params, SgrItem.extended] <;> omega
    have hcomplete : (SgrItem.rgb fg red green blue).Complete := trivial
    unfold VtEngine.colorSequence setGraphicsRenditionRGBColor
    rw [receive_item hcomplete hbytes]
    exact agrees_setColor _ _ t attr h

theorem sends_flag {value : Nat} {flag : CharacterAttributes} {isSet : Bool} (hflag : flag ∈ trackedFlags)
    (hvalue : value ≤ 65535) (hforeground : ofInt value ≠ .foregroundExtended)
    (hbackground : ofInt value ≠ .backgroundExtended)
    (happly : applyRendition (ofInt value) = TextAttribute.updateFlag flag isSet) :
    Sends (.sgr [.option value]) (·.updateFlag flag isSet) := by
  apply sends_option hvalue rfl hforeground hbackground
  rw [happly]
  exact agrees_updateFlag hflag isSet

theorem sends_rendition {on off : Nat} {flag : CharacterAttributes} (hflag : flag ∈ trackedFlags)
    (hon : on ≤ 65535 ∧ ofInt on ≠ .foregroundExtended ∧ ofInt on ≠ .backgroundExtended)
    (hoff : off ≤ 65535 ∧ ofInt off ≠ .foregroundExtended ∧ ofInt off ≠ .backgroundExtended)
    (happlyOn : applyRendition (ofInt on) = TextAttribute.updateFlag flag true)
    (happlyOff : applyRendition (ofInt off) = TextAttribute.updateFlag flag false) (isSet : Bool) :
    Sends (setRendition on off isSet) (·.updateFlag flag isSet) := by
  cases isSet with
  | true => exact sends_flag hflag hon.1 hon.2.1 hon.2.2 happlyOn
  | false => exact sends_flag hflag hoff.1 hoff.2.1 hoff.2.2 happlyOff

theorem sends_pairOff {value : Nat} {first second : CharacterAttributes} (hfirst : first ∈ trackedFlags)
    (hsecond : second ∈ trackedFlags) (hvalue : value ≤ 65535)
    (hforeground : ofInt value ≠ .foregroundExtended)
    (hbackground : ofInt value ≠ .backgroundExtended)
    (happly : applyRendition (ofInt value) =
      fun attr => (attr.updateFlag first false).updateFlag second false) :
    Sends (.sgr [.option value]) fun attr => (attr.updateFlag first false).updateFlag second false := by
  apply sends_option hvalue rfl hforeground hbackground
  rw [happly]
  intro t attr h
  exact agrees_updateFlag hsecond false _ _ (agrees_updateFlag hfirst false t attr h)

theorem parseHyperlink_append {id uri : List Wchar} (hid : 0x3B ∉ id) (hne : id ≠ []) (huri : uri ≠ []) :
    ∃ params found, parseHyperlink (id ++ [0x3B] ++ uri) = some (params, found) ∧ found ≠ [] := by
  have hfind : (id ++ [0x3B] ++ uri).findIdx? (· = 0x3B) = some id.length := by
    rw [append_assoc, findIdx?_append, findIdx?_eq_none_iff.mpr]
    · simp [findIdx?_cons]
    · intro c hc
      have : c ≠ 0x3B := fun heq => hid (heq ▸ hc)
      simpa using this
  have hplain : id ++ [0x3B] ++ uri ≠ [0x3B] := by
    intro h
    have := congrArg length h
    have := length_pos_iff.mpr hne
    simp only [length_append, length_cons, length_nil] at *
    omega
  unfold parseHyperlink
  rw [if_neg hplain, hfind]
  refine ⟨_, _, rfl, ?_⟩
  rw [drop_left' (by simp)]
  obtain ⟨c, uri, rfl⟩ := exists_cons_of_ne_nil huri
  unfold Parser.maxUrlLength
  simp

theorem semicolon_not_mem_formatNat (n : Nat) : 0x3B ∉ formatNat n := by
  intro h
  exact absurd (numeric_of_mem_formatNat n _ h) (by decide)

theorem sends_hyperlink (sessionID : Nat) (pData : RenderData) (id : BitVec 16) (hid : id ≠ 0) :
    Sends (setHyperlink sessionID (pData.getHyperlinkUri id) (pData.getHyperlinkCustomId id) id)
      (·.setHyperlinkId id) := by
  have hplain : 0x3B ∉ idParameter ++ (if (pData.getHyperlinkCustomId id).isEmpty then
      formatNat sessionID ++ [0x2D] ++ formatNat id.toNat else [0x75, 0x2D] ++ pData.getHyperlinkCustomId id) := by
    have hsession := semicolon_not_mem_formatNat sessionID
    have hnumber := semicolon_not_mem_formatNat id.toNat
    have hcustom := pData.customId_plain id
    split <;> simp_all [idParameter]
  obtain ⟨params, found, hfound, hne⟩ := parseHyperlink_append hplain (by simp [idParameter]) (pData.uri_ne_nil id)
  intro t attr h
  unfold setHyperlink Connected.receive
  dsimp only
  rw [hfound]
  refine ⟨h.foreground, h.background, h.rendition, ?_⟩
  have hopen : found.isEmpty = false := isEmpty_eq_false_iff.mpr hne
  have hlink : (id != 0) = true := bne_iff_ne.mpr hid
  change (!found.isEmpty) = (id != 0)
  rw [hopen, hlink]
  rfl

theorem sends_endHyperlink : Sends endHyperlink (·.setHyperlinkId 0) := by
  intro t attr h
  exact ⟨h.foreground, h.background, h.rendition, rfl⟩

/-! ## One update -/

/-- The terminal, given all that was written, has what the engine remembers. -/
def Follows (t : Connected) (e : VtEngine) : Prop := Agrees (t.receiveAll e.written) e.lastTextAttributes

namespace VtEngine

variable {pipe : List VtSequence → Bool} {t : Connected} {e e' : VtEngine}

variable {sequence : VtSequence} {condition : Bool} {change : TextAttribute → TextAttribute}
  {textAttributes : TextAttribute} {sessionID : Nat} {pData : RenderData} {brushes : Brushes}

theorem write_eq (h : e.write pipe sequence = some e') : e' = { e with written := e.written ++ [sequence] } := by
  unfold write at h
  split at h
  · exact (Option.some.inj h).symm
  · cases h

theorem updateIf_eq (h : e.updateIf pipe condition sequence change = some e') :
    e'.lastTextAttributes = (if condition then change e.lastTextAttributes else e.lastTextAttributes) ∧
      e'.passthrough = e.passthrough := by
  unfold updateIf update at h
  cases condition with
  | false =>
    cases h
    exact ⟨rfl, rfl⟩
  | true =>
    obtain ⟨e₁, hwrite, hlast⟩ := Option.bind_eq_some_iff.mp h
    cases write_eq hwrite
    cases hlast
    exact ⟨rfl, rfl⟩

theorem receiveAll_concat (t : Connected) (sequences : List VtSequence) (sequence : VtSequence) :
    t.receiveAll (sequences ++ [sequence]) = (t.receiveAll sequences).receive sequence := by
  unfold Connected.receiveAll
  rw [foldl_append]
  rfl

theorem updateIf_follows (hsends : condition = true → Sends sequence change) (hfollows : Follows t e)
    (h : e.updateIf pipe condition sequence change = some e') : Follows t e' := by
  unfold updateIf update at h
  cases condition with
  | false =>
    cases h
    exact hfollows
  | true =>
    obtain ⟨e₁, hwrite, hlast⟩ := Option.bind_eq_some_iff.mp h
    cases write_eq hwrite
    cases hlast
    unfold Follows
    rw [receiveAll_concat]
    exact hsends rfl _ _ hfollows

theorem rgbUpdateDrawingBrushes_spec
    (hforeground : properColor textAttributes.foreground) (hbackground : properColor textAttributes.background)
    (hfollows : Follows t e) (h : e.rgbUpdateDrawingBrushes pipe textAttributes = some e') :
    Follows t e' ∧ e'.passthrough = e.passthrough ∧ e'.lastTextAttributes.foreground = textAttributes.foreground ∧
      e'.lastTextAttributes.background = textAttributes.background ∧
      e'.lastTextAttributes.hyperlinkId = e.lastTextAttributes.hyperlinkId := by
  unfold rgbUpdateDrawingBrushes at h
  obtain ⟨e₁, h₁, h⟩ := Option.bind_eq_some_iff.mp h
  obtain ⟨e₂, h₂, h₃⟩ := Option.bind_eq_some_iff.mp h
  have hfollows₁ := updateIf_follows (fun _ => sends_reset) hfollows h₁
  have hfollows₂ := updateIf_follows (fun _ => sends_color hforeground true) hfollows₁ h₂
  have hfollows₃ := updateIf_follows (fun _ => sends_color hbackground false) hfollows₂ h₃
  obtain ⟨hlast₁, hpass₁⟩ := updateIf_eq h₁
  obtain ⟨hlast₂, hpass₂⟩ := updateIf_eq h₂
  obtain ⟨hlast₃, hpass₃⟩ := updateIf_eq h₃
  have hid₁ : e₁.lastTextAttributes.hyperlinkId = e.lastTextAttributes.hyperlinkId := by
    rw [hlast₁]
    split <;> rfl
  have hfg₂ : e₂.lastTextAttributes.foreground = textAttributes.foreground := by
    rw [hlast₂]
    split
    · rfl
    · rename_i hsame
      simpa using Eq.symm (by simpa using hsame)
  have hid₂ : e₂.lastTextAttributes.hyperlinkId = e₁.lastTextAttributes.hyperlinkId := by
    rw [hlast₂]
    split <;> rfl
  refine ⟨hfollows₃, hpass₃.trans (hpass₂.trans hpass₁), ?_, ?_, ?_⟩
  · rw [hlast₃]
    split
    · exact hfg₂
    · exact hfg₂
  · rw [hlast₃]
    split
    · rfl
    · rename_i hsame
      simpa using Eq.symm (by simpa using hsame)
  · rw [hlast₃, ← hid₁, ← hid₂]
    split <;> rfl

theorem updateHyperlinkAttr_spec
    (hfollows : Follows t e) (h : e.updateHyperlinkAttr pipe sessionID pData textAttributes = some e') :
    Follows t e' ∧ e'.passthrough = e.passthrough ∧
      e'.lastTextAttributes = e.lastTextAttributes.setHyperlinkId textAttributes.hyperlinkId := by
  have hsends : Sends (if textAttributes.isHyperlink then
      setHyperlink sessionID (pData.getHyperlinkUri textAttributes.hyperlinkId)
        (pData.getHyperlinkCustomId textAttributes.hyperlinkId) textAttributes.hyperlinkId
      else endHyperlink) (·.setHyperlinkId textAttributes.hyperlinkId) := by
    split
    · rename_i hlink
      exact sends_hyperlink sessionID pData _ (bne_iff_ne.mp hlink)
    · rename_i hlink
      have hzero : textAttributes.hyperlinkId = 0 := by simpa [TextAttribute.isHyperlink] using hlink
      rw [hzero]
      exact sends_endHyperlink
  obtain ⟨hlast, hpass⟩ := updateIf_eq h
  refine ⟨updateIf_follows (fun _ => hsends) hfollows h, hpass, ?_⟩
  rw [hlast]
  split
  · rfl
  · rename_i hsame
    have hid : textAttributes.hyperlinkId = e.lastTextAttributes.hyperlinkId := by simpa using hsame
    rw [hid]
    rfl

theorem updateSoftFont_spec (hfollows : Follows t e) (h : e.updateSoftFont pipe brushes = some e') :
    Follows t e' ∧ e'.passthrough = e.passthrough ∧ e'.lastTextAttributes = e.lastTextAttributes := by
  unfold updateSoftFont at h
  split at h
  · obtain ⟨e₁, hwrite, hfont⟩ := Option.bind_eq_some_iff.mp h
    cases write_eq hwrite
    cases hfont
    refine ⟨?_, rfl, rfl⟩
    unfold Follows
    rw [receiveAll_concat]
    exact hfollows
  · cases h
    exact ⟨hfollows, rfl, rfl⟩

/-! ## Rendition -/

structure Keeps (before after : TextAttribute) : Prop where
  foreground : after.foreground = before.foreground
  background : after.background = before.background
  hyperlinkId : after.hyperlinkId = before.hyperlinkId

theorem Keeps.refl (attr : TextAttribute) : Keeps attr attr := ⟨rfl, rfl, rfl⟩

theorem Keeps.trans {a b c : TextAttribute} (hab : Keeps a b) (hbc : Keeps b c) : Keeps a c :=
  ⟨hbc.foreground.trans hab.foreground, hbc.background.trans hab.background, hbc.hyperlinkId.trans hab.hyperlinkId⟩

theorem keeps_updateFlag (flag : CharacterAttributes) (isSet : Bool) (attr : TextAttribute) :
    Keeps attr (attr.updateFlag flag isSet) := ⟨rfl, rfl, rfl⟩

theorem updateIf_keeps
    (hchange : ∀ attr, Keeps attr (change attr)) (h : e.updateIf pipe condition sequence change = some e') :
    Keeps e.lastTextAttributes e'.lastTextAttributes := by
  rw [(updateIf_eq h).1]
  split
  · exact hchange _
  · exact Keeps.refl _

theorem updateIf_flag {condition isSet : Bool} {flag other : CharacterAttributes}
    (hflag : flag ∈ trackedFlags) (hother : other ∈ trackedFlags)
    (h : e.updateIf pipe condition sequence (·.updateFlag flag isSet) = some e') :
    e'.lastTextAttributes.isFlagSet other =
      if condition ∧ other = flag then isSet else e.lastTextAttributes.isFlagSet other := by
  rw [(updateIf_eq h).1]
  cases condition with
  | false => simp
  | true => simp [isFlagSet_updateFlag hflag hother]

theorem updateIf_flags_off {first second other : CharacterAttributes}
    (hfirst : first ∈ trackedFlags) (hsecond : second ∈ trackedFlags) (hother : other ∈ trackedFlags)
    (h : e.updateIf pipe condition sequence
      (fun attr => (attr.updateFlag first false).updateFlag second false) = some e') :
    e'.lastTextAttributes.isFlagSet other =
      if condition ∧ (other = first ∨ other = second) then false else e.lastTextAttributes.isFlagSet other := by
  rw [(updateIf_eq h).1]
  cases condition with
  | false => simp
  | true =>
    rw [if_pos rfl, isFlagSet_updateFlag hsecond hother, isFlagSet_updateFlag hfirst hother]
    by_cases heq : other = second <;> simp [heq]

/-- The flags of a list are set as wanted, and all else is as before. -/
structure Settles (flags : List CharacterAttributes) (wanted before after : TextAttribute) : Prop where
  keeps : Keeps before after
  flag : ∀ flag ∈ trackedFlags, after.isFlagSet flag =
    if flag ∈ flags then wanted.isFlagSet flag else before.isFlagSet flag

theorem Settles.trans {flags others : List CharacterAttributes} {wanted a b c : TextAttribute}
    (hab : Settles flags wanted a b) (hbc : Settles others wanted b c) : Settles (flags ++ others) wanted a c := by
  refine ⟨hab.keeps.trans hbc.keeps, ?_⟩
  intro flag hflag
  rw [hbc.flag flag hflag, hab.flag flag hflag]
  by_cases hother : flag ∈ others <;> simp [hother]

structure Stage (flags : List CharacterAttributes) (t : Connected) (wanted : TextAttribute) (e e' : VtEngine) :
    Prop where
  follows : Follows t e → Follows t e'
  passthrough : e'.passthrough = e.passthrough
  settles : Settles flags wanted e.lastTextAttributes e'.lastTextAttributes

theorem Stage.trans {flags others : List CharacterAttributes} {wanted : TextAttribute} {a b c : VtEngine}
    (hab : Stage flags t wanted a b) (hbc : Stage others t wanted b c) : Stage (flags ++ others) t wanted a c :=
  ⟨fun h => hbc.follows (hab.follows h), hbc.passthrough.trans hab.passthrough, hab.settles.trans hbc.settles⟩

theorem updateSingle_stage {flag : CharacterAttributes} {setFlag : Bool → VtSequence}
    (hflag : flag ∈ trackedFlags) (hsends : ∀ isSet, Sends (setFlag isSet) (·.updateFlag flag isSet))
    (h : e.updateSingle pipe flag setFlag textAttributes = some e') : Stage [flag] t textAttributes e e' := by
  obtain ⟨hlast, hpass⟩ := updateIf_eq h
  refine ⟨fun hfollows => updateIf_follows (fun _ => hsends _) hfollows h, hpass,
    updateIf_keeps (keeps_updateFlag flag _) h, ?_⟩
  intro other hother
  rw [hlast]
  split
  · rw [isFlagSet_updateFlag hflag hother]
    by_cases heq : other = flag <;> simp [heq]
  · rename_i hsame
    have hset : textAttributes.isFlagSet flag = e.lastTextAttributes.isFlagSet flag := by simpa using hsame
    by_cases heq : other = flag <;> simp [heq, hset]

theorem turnedOn (wanted was partner : Bool) :
    (if (wanted && !(if (partner || !wanted && was) = true then false else was)) = true then true
      else if (partner || !wanted && was) = true then false else was) = wanted := by
  revert wanted was partner
  decide

theorem updatePair_stage {first second : CharacterAttributes} {setFirst setSecond : Bool → VtSequence}
    (hfirst : first ∈ trackedFlags) (hsecond : second ∈ trackedFlags)
    (hne : first ≠ second)
    (hoff : Sends (setFirst false) fun attr => (attr.updateFlag first false).updateFlag second false)
    (hfirstOn : Sends (setFirst true) (·.updateFlag first true))
    (hsecondOn : Sends (setSecond true) (·.updateFlag second true))
    (h : e.updatePair pipe first second setFirst setSecond textAttributes = some e') :
    Stage [first, second] t textAttributes e e' := by
  unfold updatePair at h
  obtain ⟨e₁, h₁, h⟩ := Option.bind_eq_some_iff.mp h
  obtain ⟨e₂, h₂, h₃⟩ := Option.bind_eq_some_iff.mp h
  obtain ⟨hlast₁, hpass₁⟩ := updateIf_eq h₁
  obtain ⟨hlast₂, hpass₂⟩ := updateIf_eq h₂
  obtain ⟨hlast₃, hpass₃⟩ := updateIf_eq h₃
  refine ⟨?_, hpass₃.trans (hpass₂.trans hpass₁), ?_, ?_⟩
  · intro hfollows
    have hfollows₁ := updateIf_follows (fun _ => hoff) hfollows h₁
    have hfollows₂ := updateIf_follows (fun _ => hfirstOn) hfollows₁ h₂
    exact updateIf_follows (fun _ => hsecondOn) hfollows₂ h₃
  · have hkeeps₁ := updateIf_keeps (fun attr => (keeps_updateFlag first false attr).trans
      (keeps_updateFlag second false _)) h₁
    have hkeeps₂ := updateIf_keeps (keeps_updateFlag first true) h₂
    have hkeeps₃ := updateIf_keeps (keeps_updateFlag second true) h₃
    exact (hkeeps₁.trans hkeeps₂).trans hkeeps₃
  · intro other hother
    have hoff₁ := updateIf_flags_off hfirst hsecond hother h₁
    have hon₂ := updateIf_flag hfirst hother h₂
    have hon₃ := updateIf_flag hsecond hother h₃
    by_cases hother₁ : other = first
    · subst hother₁
      simp only [true_or, and_true, hne, and_false, if_false] at hoff₁ hon₂ hon₃
      rw [hon₃, hon₂, hoff₁, Bool.or_comm, turnedOn]
      simp
    · by_cases hother₂ : other = second
      · subst hother₂
        simp only [or_true, and_true, hother₁, and_false, if_false] at hoff₁ hon₂ hon₃
        rw [hon₃, hon₂, hoff₁, turnedOn]
        simp
      · simp only [hother₁, hother₂, or_self, and_false, if_false] at hoff₁ hon₂ hon₃
        rw [hon₃, hon₂, hoff₁]
        simp [hother₁, hother₂]

theorem updateExtendedAttrs_stage
    (h : e.updateExtendedAttrs pipe textAttributes = some e') : Stage trackedFlags t textAttributes e e' := by
  unfold updateExtendedAttrs at h
  obtain ⟨e₁, h₁, h⟩ := Option.bind_eq_some_iff.mp h
  obtain ⟨e₂, h₂, h⟩ := Option.bind_eq_some_iff.mp h
  obtain ⟨e₃, h₃, h⟩ := Option.bind_eq_some_iff.mp h
  obtain ⟨e₄, h₄, h⟩ := Option.bind_eq_some_iff.mp h
  obtain ⟨e₅, h₅, h⟩ := Option.bind_eq_some_iff.mp h
  obtain ⟨e₆, h₆, h⟩ := Option.bind_eq_some_iff.mp h
  obtain ⟨e₇, h₇, h₈⟩ := Option.bind_eq_some_iff.mp h
  have hweight : Stage _ t textAttributes e e₁ := updatePair_stage (by decide) (by decide) (by decide)
    (sends_pairOff (by decide) (by decide) (by decide) (by decide) (by decide) rfl)
    (sends_flag (by decide) (by decide) (by decide) (by decide) rfl)
    (sends_flag (by decide) (by decide) (by decide) (by decide) rfl) h₁
  have hline : Stage _ t textAttributes e₁ e₂ := updatePair_stage (by decide) (by decide) (by decide)
    (sends_pairOff (by decide) (by decide) (by decide) (by decide) (by decide) rfl)
    (sends_flag (by decide) (by decide) (by decide) (by decide) rfl)
    (sends_flag (by decide) (by decide) (by decide) (by decide) rfl) h₂
  have hover : Stage _ t textAttributes e₂ e₃ := updateSingle_stage (by decide)
    (sends_rendition (by decide) (by decide) (by decide) rfl rfl) h₃
  have hitalic : Stage _ t textAttributes e₃ e₄ := updateSingle_stage (by decide)
    (sends_rendition (by decide) (by decide) (by decide) rfl rfl) h₄
  have hblink : Stage _ t textAttributes e₄ e₅ := updateSingle_stage (by decide)
    (sends_rendition (by decide) (by decide) (by decide) rfl rfl) h₅
  have hinvisible : Stage _ t textAttributes e₅ e₆ := updateSingle_stage (by decide)
    (sends_rendition (by decide) (by decide) (by decide) rfl rfl) h₆
  have hcrossed : Stage _ t textAttributes e₆ e₇ := updateSingle_stage (by decide)
    (sends_rendition (by decide) (by decide) (by decide) rfl rfl) h₇
  have hreverse : Stage _ t textAttributes e₇ e' := updateSingle_stage (by decide)
    (sends_rendition (by decide) (by decide) (by decide) rfl rfl) h₈
  have hall := ((((((hweight.trans hline).trans hover).trans hitalic).trans hblink).trans hinvisible).trans
    hcrossed).trans hreverse
  refine ⟨hall.follows, hall.passthrough, hall.settles.keeps, ?_⟩
  intro flag hflag
  rw [hall.settles.flag flag hflag, if_pos hflag, if_pos]
  -- the ten flags, in the order of the updates
  simp only [trackedFlags, mem_cons, not_mem_nil, or_false] at hflag
  rcases hflag with rfl | rfl | rfl | rfl | rfl | rfl | rfl | rfl | rfl | rfl <;> decide

theorem updateDrawingBrushes_spec (hforeground : properColor brushes.textAttributes.foreground)
    (hbackground : properColor brushes.textAttributes.background) (hskips : e.skips brushes = false)
    (hfollows : Follows t e) (h : e.updateDrawingBrushes pipe sessionID pData brushes = some e') :
    Follows t e' ∧ e'.passthrough = e.passthrough ∧ Agrees (t.receiveAll e'.written) brushes.textAttributes := by
  unfold updateDrawingBrushes at h
  rw [hskips, if_neg Bool.false_ne_true] at h
  obtain ⟨e₁, h₁, h⟩ := Option.bind_eq_some_iff.mp h
  obtain ⟨e₂, h₂, h⟩ := Option.bind_eq_some_iff.mp h
  obtain ⟨e₃, h₃, h₄⟩ := Option.bind_eq_some_iff.mp h
  obtain ⟨hfollows₁, hpass₁, hfg, hbg, -⟩ := rgbUpdateDrawingBrushes_spec hforeground hbackground hfollows h₁
  obtain ⟨hfollows₂, hpass₂, hlast₂⟩ := updateHyperlinkAttr_spec hfollows₁ h₂
  obtain ⟨hfollows₃, hpass₃, hlast₃⟩ := updateSoftFont_spec hfollows₂ h₃
  have hstage : Stage trackedFlags t brushes.textAttributes e₃ e' := updateExtendedAttrs_stage h₄
  have hfollows₄ := hstage.follows hfollows₃
  refine ⟨hfollows₄, hstage.passthrough.trans (hpass₃.trans (hpass₂.trans hpass₁)), ?_⟩
  have hlast : e₃.lastTextAttributes = e₁.lastTextAttributes.setHyperlinkId brushes.textAttributes.hyperlinkId :=
    hlast₃.trans hlast₂
  constructor
  · rw [hfollows₄.foreground, hstage.settles.keeps.foreground, hlast]
    exact hfg
  · rw [hfollows₄.background, hstage.settles.keeps.background, hlast]
    exact hbg
  · intro flag hflag
    rw [hfollows₄.rendition flag hflag, hstage.settles.flag flag hflag, if_pos hflag]
  · rw [hfollows₄.linked]
    unfold TextAttribute.isHyperlink
    rw [hstage.settles.keeps.hyperlinkId, hlast]
    rfl

/-! ## Runs -/

section

variable (pipe : List VtSequence → Bool) (sessionID : Nat) (pData : RenderData)

def updateAll (calls : List Brushes) (e : VtEngine) : Option VtEngine :=
  calls.foldlM (fun e brushes => e.updateDrawingBrushes pipe sessionID pData brushes) e

end

def Brushes.Proper (brushes : Brushes) : Prop :=
  properColor brushes.textAttributes.foreground ∧ properColor brushes.textAttributes.background

theorem updateDrawingBrushes_follows (hproper : brushes.Proper) (hfollows : Follows t e)
    (h : e.updateDrawingBrushes pipe sessionID pData brushes = some e') :
    Follows t e' ∧ e'.passthrough = e.passthrough := by
  cases hskips : e.skips brushes with
  | false =>
    obtain ⟨hfollows', hpass, -⟩ := updateDrawingBrushes_spec hproper.1 hproper.2 hskips hfollows h
    exact ⟨hfollows', hpass⟩
  | true =>
    unfold updateDrawingBrushes at h
    rw [hskips, if_pos rfl] at h
    cases h
    exact ⟨hfollows, rfl⟩

theorem updateAll_follows {calls : List Brushes} (hproper : ∀ brushes ∈ calls, brushes.Proper) (hfollows : Follows t e)
    (h : e.updateAll pipe sessionID pData calls = some e') : Follows t e' ∧ e'.passthrough = e.passthrough := by
  induction calls generalizing e with
  | nil =>
    cases h
    exact ⟨hfollows, rfl⟩
  | cons brushes calls ih =>
    obtain ⟨e₁, h₁, h⟩ := Option.bind_eq_some_iff.mp h
    obtain ⟨hfollows₁, hpass₁⟩ := updateDrawingBrushes_follows (hproper _ mem_cons_self) hfollows h₁
    obtain ⟨hfollows', hpass'⟩ := ih (fun b hb => hproper b (mem_cons_of_mem _ hb)) hfollows₁ h
    exact ⟨hfollows', hpass'.trans hpass₁⟩

/-- After each call, but a default brush in passthrough mode, the terminal has the attribute. -/
theorem updateAll_agrees (pipe : List VtSequence → Bool) (sessionID : Nat) (pData : RenderData) (t : Connected)
    (e e' : VtEngine) (calls : List Brushes) (brushes : Brushes)
    (hproper : ∀ call ∈ calls ++ [brushes], call.Proper) (hfollows : Follows t e)
    (hskips : e.skips brushes = false)
    (h : e.updateAll pipe sessionID pData (calls ++ [brushes]) = some e') :
    Agrees (t.receiveAll e'.written) brushes.textAttributes := by
  unfold updateAll at h
  rw [foldlM_append] at h
  obtain ⟨e₁, h₁, h⟩ := Option.bind_eq_some_iff.mp h
  obtain ⟨e₂, h₂, hpure⟩ := Option.bind_eq_some_iff.mp h
  cases hpure
  obtain ⟨hfollows₁, hpass₁⟩ := updateAll_follows (fun call hcall => hproper call (mem_append_left _ hcall)) hfollows h₁
  have hlast := hproper brushes (by simp)
  have hskips₁ : e₁.skips brushes = false := by
    unfold skips at hskips ⊢
    rw [hpass₁, hskips]
  exact (updateDrawingBrushes_spec hlast.1 hlast.2 hskips₁ hfollows₁ h₂).2.2

def oneLink : RenderData where
  getHyperlinkUri _ := [0x61]
  getHyperlinkCustomId _ := []
  uri_ne_nil _ := by decide
  customId_plain _ := by decide

open CharacterAttributes in
def threeBrushes : List Brushes :=
  [{ textAttributes := { foreground := .index16 1, attrs := intense } },
    { textAttributes := { background := .rgb 1 2 3, attrs := faint } }, { textAttributes := { hyperlinkId := 7 } }]

theorem follows_initial : Follows {} {} := ⟨rfl, rfl, fun _ _ => rfl, rfl⟩

theorem updateAll_agrees_link : ∃ e', updateAll (fun _ => true) 5 oneLink threeBrushes {} = some e' ∧
    Agrees (Connected.receiveAll {} e'.written) { hyperlinkId := 7 } := by
  refine ⟨_, rfl, updateAll_agrees (fun _ => true) 5 oneLink {} {} _ (threeBrushes.take 2)
    { textAttributes := { hyperlinkId := 7 } } ?_ follows_initial rfl rfl⟩
  intro call hcall
  simp only [threeBrushes, take_succ_cons, take_zero, cons_append, nil_append, mem_cons, not_mem_nil, or_false] at hcall
  rcases hcall with rfl | rfl | rfl <;> exact ⟨by simp [properColor], by simp [properColor]⟩

/-- The default brush is skipped, and the terminal stays red. -/
theorem updateAll_passthrough_default :
    let red : TextAttribute := { foreground := .index16 1 }
    let e : VtEngine := { lastTextAttributes := red, passthrough := true }
    let brushes : Brushes := { textAttributes := {}, isSettingDefaultBrushes := true }
    Follows { attr := red } e ∧ updateAll (fun _ => true) 5 oneLink [brushes] e = some e ∧
      ¬Agrees (Connected.receiveAll { attr := red } e.written) brushes.textAttributes := by
  refine ⟨⟨rfl, rfl, fun _ _ => rfl, rfl⟩, rfl, ?_⟩
  intro h
  exact absurd h.foreground (by decide)

end VtEngine

end Terminal.Renderer
