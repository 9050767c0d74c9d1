import Mathlib.Data.List.Infix
import Terminal.Parser.Chars

/-!
# The parameters of OSC 8

The id of a hyperlink is looked for as the text `id=`, wherever it stands.
-/

namespace Terminal.Parser

open List

def idParameter : List Wchar := [0x69, 0x64, 0x3D]

def maxUrlLength : Nat := 2 * 1048576

/-- The loop of `SplitString`, which finds no part in an empty string. -/
def splitString (wstr : List Wchar) (delimiter : Wchar) : List (List Wchar) :=
  if wstr.isEmpty then [] else wstr.splitOn delimiter

/-- What follows the first `id=`, as `find` and `substr` give it. -/
def afterId (part : List Wchar) : Option (List Wchar) :=
  (part.tails.find? (idParameter.isPrefixOf ·)).map (·.drop idParameter.length)

def parseHyperlink (string : List Wchar) : Option (List Wchar × List Wchar) :=
  if string = [0x3B] then some ([], [])
  else (string.findIdx? (· = 0x3B)).map fun midPos =>
    ((splitString (string.take midPos) 0x3A).foldl (fun params part => (afterId part).getD params) [],
      (string.drop (midPos + 1)).take maxUrlLength)

/-- An item `key=value`, with no delimiter in it. -/
structure LinkItem where
  key : List Wchar
  value : List Wchar
  key_plain : ∀ c ∈ key, c ≠ 0x3D ∧ c ≠ 0x3A ∧ c ≠ 0x3B
  value_plain : ∀ c ∈ value, c ≠ 0x3A ∧ c ≠ 0x3B

namespace LinkItem

def text (item : LinkItem) : List Wchar := item.key ++ 0x3D :: item.value

theorem not_mem_text (item : LinkItem) : 0x3A ∉ item.text ∧ 0x3B ∉ item.text := by
  have hkey := item.key_plain
  have hvalue := item.value_plain
  constructor <;> simp [text] <;> grind

def IsId (item : LinkItem) : Prop := item.key = [0x69, 0x64]

instance (item : LinkItem) : Decidable item.IsId := inferInstanceAs (Decidable (_ = _))

/-- Another key that ends in `id`, or a value with `id=` in it, first in front of `v`. -/
def Misleads (item : LinkItem) (v : List Wchar) : Prop :=
  ¬ item.IsId ∧ [0x69, 0x64] <:+ item.key ∧ v = item.value ∨
    ¬ [0x69, 0x64] <:+ item.key ∧ ∃ front, item.value = front ++ idParameter ++ v ∧
      ∀ front' v', item.value = front' ++ idParameter ++ v' → front.length ≤ front'.length

/-- What the code finds in an item. -/
def mention (item : LinkItem) : Option (List Wchar) :=
  if [0x69, 0x64] <:+ item.key then some item.value else afterId item.value

end LinkItem

open LinkItem

/-- The value of the item with the key `id`, the last if there are several. -/
def idOf (items : List LinkItem) : List Wchar := ((items.filter (·.IsId)).getLast?.map value).getD []

variable (items : List LinkItem)

def linkText (uri : List Wchar) : List Wchar :=
  [0x3A].intercalate (items.map LinkItem.text) ++ 0x3B :: uri

theorem afterId_cons (c : Wchar) (part : List Wchar) :
    afterId (c :: part) = if idParameter.isPrefixOf (c :: part) then some (part.drop 2) else afterId part := by
  unfold afterId
  rw [tails_cons, find?_cons]
  split_ifs with h
  · rw [h]
    rfl
  · simp [h]

theorem afterId_text {key value : List Wchar} (hkey : ∀ c ∈ key, c ≠ 0x3D) :
    afterId (key ++ 0x3D :: value) = if [0x69, 0x64] <:+ key then some value else afterId value := by
  induction key with
  | nil => rw [nil_append, afterId_cons, if_neg (by simp [idParameter]), if_neg (by simp)]
  | cons c key ih =>
    have hne : ∀ c ∈ key, c ≠ 0x3D := fun d hd => hkey d (mem_cons_of_mem c hd)
    have hhere : idParameter.isPrefixOf (c :: (key ++ 0x3D :: value)) = true ↔ [0x69, 0x64] = c :: key := by
      rcases key with - | ⟨d, key⟩
      · simp [idParameter]
      · rcases key with - | ⟨e, key⟩
        · simp [idParameter]
        · simpa [idParameter] using fun _ _ => (hne e (by simp)).symm
    simp only [cons_append, afterId_cons, ih hne, suffix_cons_iff, hhere]
    by_cases hid : [0x69, 0x64] = c :: key
    · rw [if_pos hid, if_pos (.inl hid), ← (cons.inj hid).2]
      rfl
    · simp only [if_neg hid, or_iff_right hid]

theorem afterId_eq_some_iff {part v : List Wchar} : afterId part = some v ↔
    ∃ front, part = front ++ idParameter ++ v ∧
      ∀ front' v', part = front' ++ idParameter ++ v' → front.length ≤ front'.length := by
  induction part with
  | nil => simp [afterId, idParameter]
  | cons c part ih =>
    rw [afterId_cons]
    split_ifs with hhere
    · obtain ⟨rest, hrest⟩ := isPrefixOf_iff_prefix.1 hhere
      have hdrop : part.drop 2 = rest := congrArg (·.drop 3) hrest.symm
      rw [hdrop, Option.some.injEq]
      constructor
      · rintro rfl
        exact ⟨[], hrest.symm, fun _ _ _ => Nat.zero_le _⟩
      · rintro ⟨front, hfront, hleast⟩
        obtain rfl := length_eq_zero_iff.1 (Nat.le_zero.1 (hleast [] rest hrest.symm))
        exact append_cancel_left (hrest.trans hfront)
    · -- An occurrence is behind the first character.
      have hcons {front v : List Wchar} (h : c :: part = front ++ idParameter ++ v) :
          ∃ tail, front = c :: tail ∧ part = tail ++ idParameter ++ v := by
        cases front with
        | nil => exact absurd (List.isPrefixOf_iff_prefix.2 ⟨v, h.symm⟩) hhere
        | cons d tail => exact ⟨tail, by rw [(cons.inj h).1], (cons.inj h).2⟩
      rw [ih]
      constructor
      · rintro ⟨front, rfl, hleast⟩
        refine ⟨c :: front, rfl, fun front' v' h => ?_⟩
        obtain ⟨tail, rfl, htail⟩ := hcons h
        exact Nat.succ_le_succ (hleast tail v' htail)
      · rintro ⟨front, h, hleast⟩
        obtain ⟨tail, rfl, htail⟩ := hcons h
        refine ⟨tail, htail, fun front' v' h => Nat.le_of_succ_le_succ (hleast (c :: front') v' ?_)⟩
        rw [h]
        rfl

theorem LinkItem.misleads_iff {item : LinkItem} {v : List Wchar} :
    item.Misleads v ↔ ¬ item.IsId ∧ item.mention = some v := by
  unfold Misleads mention
  split_ifs with hkey
  · simp only [hkey, true_and, not_true_eq_false, false_and, or_false, Option.some.injEq, eq_comm]
  · have hid : ¬ item.IsId := fun h => hkey (h ▸ suffix_refl _)
    simp only [hkey, hid, false_and, and_false, false_or, not_false_eq_true, true_and, afterId_eq_some_iff]

theorem LinkItem.mention_of_isId {item : LinkItem} (h : item.IsId) : item.mention = some item.value :=
  if_pos (h ▸ suffix_refl _)

/-- The loop over the items. -/
def found : List Wchar := items.foldl (fun params item => item.mention.getD params) []

theorem append_singleton_eq_append_cons {α : Type*} {items before after : List α} {last item : α}
    (h : items ++ [last] = before ++ item :: after) :
    before = items ∧ item = last ∧ after = [] ∨ ∃ rest, after = rest ++ [last] ∧ items = before ++ item :: rest := by
  rcases eq_nil_or_concat' after with rfl | ⟨rest, next, rfl⟩
  · obtain ⟨rfl, rfl⟩ := append_singleton_inj.1 h
    exact .inl ⟨rfl, rfl, rfl⟩
  · obtain ⟨rfl, rfl⟩ := append_singleton_inj.1 (h.trans (append_assoc before (item :: rest) [next]).symm)
    exact .inr ⟨rest, rfl, rfl⟩

/-- An item that misleads has to be followed by the id, or by another one, or to have its value. -/
theorem found_eq_idOf_iff : found items = idOf items ↔
    ∀ before item after v, items = before ++ item :: after → item.Misleads v →
      (∀ next ∈ after, ¬ next.IsId ∧ ∀ v', ¬ next.Misleads v') → v = idOf before := by
  induction items using reverseRecOn with
  | nil => simp [found, idOf]
  | append_singleton items last ih =>
    have hfound : found (items ++ [last]) = last.mention.getD (found items) := by simp [found]
    rw [hfound]
    by_cases hid : last.IsId
    · rw [mention_of_isId hid]
      refine iff_of_true (by simp [idOf, hid]) fun before item after v hitems hmisleads hafter => ?_
      obtain ⟨-, rfl, -⟩ | ⟨rest, rfl, -⟩ := append_singleton_eq_append_cons hitems
      · exact absurd hid (misleads_iff.1 hmisleads).1
      · exact absurd hid (hafter last (by simp)).1
    · have hsame : idOf (items ++ [last]) = idOf items := by simp [idOf, hid]
      rw [hsame]
      cases hmention : last.mention with
      | none =>
        have hnever (v : List Wchar) : ¬ last.Misleads v := by simp [misleads_iff, hmention]
        rw [Option.getD_none, ih]
        constructor
        · intro h before item after v hitems hmisleads hafter
          obtain ⟨-, rfl, -⟩ | ⟨rest, rfl, hinit⟩ := append_singleton_eq_append_cons hitems
          · exact absurd hmisleads (hnever v)
          · exact h before item rest v hinit hmisleads fun next hnext => hafter next (by simp [hnext])
        · intro h before item after v hitems hmisleads hafter
          refine h before item (after ++ [last]) v (by simp [hitems]) hmisleads fun next hnext => ?_
          rcases mem_append.1 hnext with hnext | hnext
          · exact hafter next hnext
          · obtain rfl := mem_singleton.1 hnext
            exact ⟨hid, hnever⟩
      | some v =>
        have hlast : last.Misleads v := misleads_iff.2 ⟨hid, hmention⟩
        rw [Option.getD_some]
        constructor
        · rintro rfl before item after v' hitems hmisleads hafter
          obtain ⟨rfl, rfl, -⟩ | ⟨rest, rfl, -⟩ := append_singleton_eq_append_cons hitems
          · exact Option.some.inj ((misleads_iff.1 hmisleads).2.symm.trans hmention)
          · exact absurd hlast ((hafter last (by simp)).2 _)
        · exact fun h => h items last [] v rfl hlast (by simp)

theorem splitString_items : splitString ([0x3A].intercalate (items.map LinkItem.text)) 0x3A =
    items.map LinkItem.text := by
  cases items with
  | nil => rfl
  | cons item items =>
    rw [splitString, if_neg, splitOn_intercalate _ _ (by simp)]
    · simp only [mem_map, forall_exists_index, and_imp, forall_apply_eq_imp_iff₂]
      exact fun item _ => item.not_mem_text.1
    · cases items <;> simp [LinkItem.text, intercalate_cons_cons]

theorem not_mem_items : 0x3B ∉ [0x3A].intercalate (items.map LinkItem.text) := by
  induction items with
  | nil => simp
  | cons item items ih =>
    cases items with
    | nil => simpa using item.not_mem_text.2
    | cons next items =>
      rw [map_cons, map_cons, intercalate_cons_cons]
      simpa using ⟨item.not_mem_text.2, ih⟩

theorem parseHyperlink_linkText (uri : List Wchar) :
    parseHyperlink (linkText items uri) = some (found items, uri.take maxUrlLength) := by
  have hfind : (linkText items uri).findIdx? (· = 0x3B) =
    some ([0x3A].intercalate (items.map LinkItem.text)).length := by
    rw [linkText, findIdx?_append, findIdx?_eq_none_iff.2]
    · simp [findIdx?_cons]
    · exact fun c hc => decide_eq_false fun heq => not_mem_items items (heq ▸ hc)
  have hmention : (fun params (item : LinkItem) => (afterId item.text).getD params) =
      fun params item => item.mention.getD params :=
    funext₂ fun params item => by rw [LinkItem.text, afterId_text fun c hc => (item.key_plain c hc).1]; rfl
  have hdrop : (linkText items uri).drop (([0x3A].intercalate (items.map LinkItem.text)).length + 1) = uri := by
    simp [linkText, ← drop_drop]
  rw [parseHyperlink, ite_eq_right_iff.2 fun h => by simp [h, splitString], hfind, Option.map_some, hdrop, linkText,
    take_left, splitString_items, foldl_map, hmention]
  rfl

/-- Right if no item that misleads stands last, unless it has the value of the id, and the URI is not cut. -/
theorem parseHyperlink_eq_iff (uri : List Wchar) : parseHyperlink (linkText items uri) = some (idOf items, uri) ↔
    (∀ before item after v, items = before ++ item :: after → item.Misleads v →
      (∀ next ∈ after, ¬ next.IsId ∧ ∀ v', ¬ next.Misleads v') → v = idOf before) ∧
    uri.length ≤ maxUrlLength := by
  rw [parseHyperlink_linkText, Option.some_inj, Prod.mk.injEq, found_eq_idOf_iff, take_eq_self_iff]

def gidItem : LinkItem := ⟨[0x67, 0x69, 0x64], [0x35], by simp, by simp⟩

theorem parseHyperlink_other_key : parseHyperlink (linkText [gidItem] [0x75]) = some ([0x35], [0x75]) ∧
    idOf [gidItem] = [] :=
  ⟨by decide +kernel, by decide +kernel⟩

end Terminal.Parser
