import Terminal.Adapter.Graphics
import Terminal.Parser.CsiText

/-!
# Graphics options as they are sent

The emitters send options one after the other, an extended colour with all its entries. The loop
takes such a list item by item.
-/

namespace Terminal.Adapter

open Terminal.Parser Terminal.Buffer List

inductive SgrItem
  | option (value : Nat)
  | index256 (isForeground : Bool) (index : BitVec 8)
  | rgb (isForeground : Bool) (red green blue : BitVec 8)
deriving DecidableEq, Repr

namespace SgrItem

def extended (isForeground : Bool) : Nat := if isForeground then 38 else 48

def params : SgrItem → List Nat
  | .option value => [value]
  | .index256 isForeground index => [extended isForeground, 5, index.toNat]
  | .rgb isForeground red green blue => [extended isForeground, 2, red.toNat, green.toNat, blue.toNat]

def apply : SgrItem → TextAttribute → TextAttribute
  | .option value, attr => applyRendition (GraphicsOptions.ofInt value) attr
  | .index256 isForeground index, attr => attr.setColor (.index256 index) isForeground
  | .rgb isForeground red green blue, attr => attr.setColor (.rgb red green blue) isForeground

/-- A plain option is not one of the two that take entries. -/
def Complete : SgrItem → Prop
  | .option value => GraphicsOptions.ofInt value ≠ .foregroundExtended ∧
      GraphicsOptions.ofInt value ≠ .backgroundExtended
  | _ => True

end SgrItem

def given (ns : List Nat) : VTParameters := ns.map fun n : Nat => { value := (n : Int) }

theorem given_append (a b : List Nat) : given (a ++ b) = given a ++ given b := map_append

section

variable {options rest : VTParameters} {i : Nat}

theorem at_of_drop {p : VTParameter} (h : options.drop i = p :: rest) : options.at' i = p := by
  unfold VTParameters.at'
  rw [getD_eq_getElem?_getD, ← Nat.add_zero i, ← getElem?_drop, h]
  rfl

theorem subspan_of_drop {p : VTParameter} (h : options.drop i = p :: rest) : options.subspan (i + 1) = some rest := by
  have hlength := congrArg length h
  rw [length_drop, length_cons] at hlength
  unfold VTParameters.subspan
  rw [if_pos (by omega), ← drop_drop, h]
  rfl

theorem toEnum_given (n : Nat) : ({ value := n } : VTParameter).toEnum = n := by
  unfold VTParameter.toEnum VTParameter.valueOr
  simp

theorem valueOr_given (n : Nat) : ({ value := n } : VTParameter).valueOr 0 = n := toEnum_given n

theorem setRgbColorsHelper_index256 (index : BitVec 8) (rest : VTParameters) (attr : TextAttribute) (fg : Bool) :
    setRgbColorsHelper (given [5, index.toNat] ++ rest) attr fg = (2, attr.setColor (.index256 index) fg) := by
  have hindex : (index.toNat : Int) ≤ 255 := by
    omega
  have hkind : GraphicsOptions.ofInt (5 : Nat) = .blinkOrXterm256Index := by decide
  unfold setRgbColorsHelper VTParameters.at'
  simp only [given, map_cons, map_nil, cons_append, nil_append, getD_cons_zero,
    getD_cons_succ, toEnum_given, valueOr_given, hkind, if_pos hindex]
  simp

theorem setRgbColorsHelper_rgb (red green blue : BitVec 8) (rest : VTParameters) (attr : TextAttribute) (fg : Bool) :
    setRgbColorsHelper (given [2, red.toNat, green.toNat, blue.toNat] ++ rest) attr fg =
      (4, attr.setColor (.rgb red green blue) fg) := by
  have hbyte (b : BitVec 8) : (b.toNat : Int) ≤ 255 := by
    omega
  have hkind : GraphicsOptions.ofInt (2 : Nat) = .rgbColorOrFaint := by decide
  unfold setRgbColorsHelper VTParameters.at'
  simp only [given, map_cons, map_nil, cons_append, nil_append, getD_cons_zero,
    getD_cons_succ, toEnum_given, valueOr_given, hkind, hbyte, and_self, if_true]
  simp

theorem applyGraphicsOption_extended {fg : Bool} {attr attr' : TextAttribute} {consumed : Nat}
    (h : options.drop i = { value := SgrItem.extended fg } :: rest)
    (hcolor : setRgbColorsHelper rest attr fg = (consumed, attr')) :
    applyGraphicsOption options i attr = some (1 + consumed, attr') := by
  have hkind : GraphicsOptions.ofInt (SgrItem.extended fg : Nat) =
      if fg then .foregroundExtended else .backgroundExtended := by
    cases fg <;> decide
  unfold applyGraphicsOption
  rw [at_of_drop h, toEnum_given, hkind, subspan_of_drop h]
  cases fg <;> simp [hcolor]

theorem applyGraphicsOption_item {item : SgrItem} (hitem : item.Complete)
    (h : options.drop i = given item.params ++ rest) (attr : TextAttribute) :
    applyGraphicsOption options i attr = some (item.params.length, item.apply attr) := by
  cases item with
  | option value =>
    have hat : options.at' i = { value := value } := at_of_drop h
    unfold applyGraphicsOption
    rw [hat]
    split
    · next hopt => exact absurd hopt hitem.1
    · next hopt => exact absurd hopt hitem.2
    · rfl
  | index256 fg index =>
    exact applyGraphicsOption_extended h (setRgbColorsHelper_index256 index rest attr fg)
  | rgb fg red green blue =>
    exact applyGraphicsOption_extended h (setRgbColorsHelper_rgb red green blue rest attr fg)

theorem SgrItem.params_length_pos (item : SgrItem) : 0 < item.params.length := by
  cases item <;> exact Nat.succ_pos _

theorem optionLoop_items (hne : options ≠ []) (items : List SgrItem) (hitems : ∀ item ∈ items, item.Complete)
    {fuel : Nat} (h : options.drop i = given (items.flatMap SgrItem.params)) (hfuel : options.length ≤ i + fuel)
    (attr : TextAttribute) :
    optionLoop options.size (applyGraphicsOption options) fuel i attr =
      some (items.foldl (fun attr item => item.apply attr) attr) := by
  have hsize : options.size = options.length := Nat.max_eq_left (length_pos_iff.mpr hne)
  induction items generalizing i fuel attr with
  | nil =>
    have hend : options.length ≤ i := drop_eq_nil_iff.mp h
    exact optionLoop_of_le (hsize ▸ hend) fuel attr
  | cons item items ih =>
    rw [flatMap_cons, given_append] at h
    have hpos := item.params_length_pos
    have hlength := congrArg length h
    simp only [given, length_drop, length_append, length_map] at hlength
    obtain ⟨fuel, rfl⟩ : ∃ n, fuel = n + 1 := ⟨fuel - 1, by omega⟩
    unfold optionLoop
    rw [if_pos (by omega), applyGraphicsOption_item (hitems item mem_cons_self) h]
    -- the rest of the list starts after the entries of the item
    have hdrop : options.drop (i + item.params.length) = given (items.flatMap SgrItem.params) := by
      rw [← drop_drop, h]
      exact drop_left' (length_map _)
    exact ih (fun item hmem => hitems item (mem_cons_of_mem _ hmem)) hdrop (by omega) _

theorem applyGraphicsOptions_items {items : List SgrItem} (hne : items ≠ []) (hitems : ∀ item ∈ items, item.Complete)
    (attr : TextAttribute) :
    applyGraphicsOptions (given (items.flatMap SgrItem.params)) attr =
      some (items.foldl (fun attr item => item.apply attr) attr) := by
  have hlist : given (items.flatMap SgrItem.params) ≠ [] := by
    obtain ⟨item, items, rfl⟩ := exists_cons_of_ne_nil hne
    have := item.params_length_pos
    intro hnil
    have hlength := congrArg length hnil
    simp only [given, flatMap_cons, length_map, length_append, length_nil] at hlength
    omega
  apply optionLoop_items hlist items hitems rfl
  rw [Nat.zero_add]
  exact Nat.le_max_left _ _

theorem parametersOf_given {ns : List Nat} (hne : ns ≠ []) (hlength : ns.length ≤ 32) (hsmall : ∀ n ∈ ns, n ≤ 65535) :
    parametersOf (formatParams ns) = given ns := by
  rw [parametersOf_formatParams hne, take_of_length_le hlength]
  apply map_congr_left
  intro n hn
  rw [Nat.min_eq_left (hsmall n hn)]

end

end Terminal.Adapter
