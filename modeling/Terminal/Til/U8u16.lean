import Mathlib.Algebra.Ring.Nat
import Terminal.Lib.Span
import Terminal.Parser.Chars
import Mathlib.Data.List.Infix
import Mathlib.Data.List.GetD
import Mathlib.Tactic.Common

/-!
# Streaming conversion from UTF-8 to UTF-16 (`u8u16convert.h`)

The bytes of a code point that a chunk cuts off are kept until the next chunks complete it.
`MultiByteToWideChar`, which converts complete blocks, is a parameter.
-/

namespace Terminal.Til

open Terminal.Parser (Wchar)
open List Option

/-! ## The model -/

inductive HResult where
  | ok
  | abort
  | unexpected
  deriving DecidableEq, Repr

/-- `u8state`; `got` is its `have`. -/
structure U8State where
  partials : List UInt8 := List.replicate 4 0
  got : Nat := 0
  want : Nat := 0
  deriving DecidableEq, Repr

structure U8Call where
  result : HResult
  out : List Wchar
  state : U8State
  blocks : List (List UInt8)
  deriving DecidableEq, Repr

def intMax : Nat := 2 ^ 31 - 1

def isContinuation (byte : UInt8) : Bool := byte &&& 0b11000000 == 0b10000000

def lengths : List Nat :=
  [1, 1, 1, 1, 1, 1, 1, 1, 1, 1, 1, 1, 1, 1, 1, 1, 0, 0, 0, 0, 0, 0, 0, 0, 2, 2, 2, 2, 3, 3, 4, 0]

def codePointLen (byte : UInt8) : Nat := lengths.getD (byte >>> 3).toNat 0

def sequenceLen : List UInt8 → Nat
  | [] => 0
  | [_] => 1
  | byte :: rest => if isContinuation byte then sequenceLen rest + 1 else 1

section

variable (convert : List UInt8 → List Wchar)

/-- Into a buffer of `capacity` code units; `none` is a failure. -/
def multiByteToWideChar (block : List UInt8) (capacity : Nat) : Option (List Wchar) :=
  if convert block = [] ∨ (convert block).length > capacity then none else some (convert block)

variable (bytes : List UInt8)

def keepPartial (state : U8State) : Option (List UInt8 × U8State) :=
  let sequence := sequenceLen bytes.reverse
  let codePoint := codePointLen (bytes.getD (bytes.length - sequence) 0)
  if codePoint > sequence then do
    let partials ← Span.write 0 (bytes.drop (bytes.length - sequence)) state.partials
    return (bytes.take (bytes.length - sequence), ⟨partials, sequence, codePoint - sequence⟩)
  else some (bytes, state)

def convertRest (capacity : Nat) (state : U8State) : Option U8Call := do
  let (bytes, state) ← if bytes = [] then some (bytes, state) else keepPartial bytes state
  if bytes = [] then return ⟨.ok, [], state, []⟩
  else match multiByteToWideChar convert bytes capacity with
    | none => return ⟨.unexpected, [], state, [bytes]⟩
    | some wide => return ⟨.ok, wide, state, [bytes]⟩

def completePartial (capacity : Nat) (state : U8State) : Option U8Call := do
  let copyable := min state.want bytes.length
  let partials ← Span.write state.got (bytes.take copyable) state.partials
  let state : U8State := ⟨partials, state.got + copyable, state.want - copyable⟩
  if state.want ≠ 0 then return ⟨.ok, [], state, []⟩
  else
    let block ← Span.read 0 state.got state.partials
    match multiByteToWideChar convert block capacity with
    | none => return ⟨.unexpected, [], state, [block]⟩
    | some wide =>
      let call ← convertRest convert (bytes.drop copyable) (capacity - wide.length) { state with got := 0 }
      return { call with out := wide ++ call.out, blocks := block :: call.blocks }

def u8u16 (state : U8State) : Option U8Call :=
  if bytes = [] then some ⟨.ok, [], state, []⟩
  else if bytes.length + state.got > intMax then some ⟨.abort, [], state, []⟩
  else if state.got ≠ 0 then completePartial convert bytes (bytes.length + state.got) state
  else convertRest convert bytes (bytes.length + state.got) state

def u8u16Whole : HResult × List Wchar :=
  if bytes = [] then (.ok, [])
  else if bytes.length > intMax then (.abort, [])
  else match multiByteToWideChar convert bytes bytes.length with
    | none => (.unexpected, [])
    | some wide => (.ok, wide)

def u8u16Chunks : U8State → List (List UInt8) → Option (List U8Call × U8State)
  | state, [] => some ([], state)
  | state, chunk :: chunks => do
    let call ← u8u16 convert chunk state
    let (calls, state) ← u8u16Chunks call.state chunks
    return (call :: calls, state)

end

/-! ## Arbitrary bytes -/

def U8State.kept (state : U8State) : List UInt8 := state.partials.take state.got

structure U8State.Valid (state : U8State) : Prop where
  length : state.partials.length = 4
  sum : state.got + state.want ≤ 4

theorem valid_fresh : ({} : U8State).Valid := ⟨rfl, by decide⟩

section

variable {convert : List UInt8 → List Wchar} {bytes : List UInt8} {capacity : Nat} {state : U8State}

theorem codePointLen_le (byte : UInt8) : codePointLen byte ≤ 4 := by
  have : ∀ i : Fin 32, lengths.getD i 0 ≤ 4 := by decide
  unfold codePointLen
  rcases Nat.lt_or_ge (byte >>> 3).toNat 32 with h | h
  · exact this ⟨_, h⟩
  · rw [getD_eq_default _ _ h]
    decide

theorem sequenceLen_le (bytes : List UInt8) : sequenceLen bytes ≤ bytes.length := by
  fun_induction sequenceLen bytes with
  | case1 => exact Nat.le_refl 0
  | case2 byte => exact Nat.le_refl 1
  | case3 byte rest h hne ih => simpa using ih
  | case4 byte rest h hne => simp

/-- What a call keeps, and what becomes of its bytes. -/
structure U8Call.Exact (call : U8Call) (before : List UInt8) : Prop where
  valid : call.state.Valid
  exact : call.result = .ok → call.blocks.flatten ++ call.state.kept = before

theorem keepPartial_exact (bytes : List UInt8) (hstate : state.Valid) (hgot : state.got = 0) :
    ∃ rest state', keepPartial bytes state = some (rest, state') ∧ state'.Valid ∧ rest ++ state'.kept = bytes := by
  have hle := sequenceLen_le bytes.reverse
  rw [length_reverse] at hle
  unfold keepPartial
  simp only
  split
  · have hcode := codePointLen_le (bytes.getD (bytes.length - sequenceLen bytes.reverse) 0)
    have hpart : (bytes.drop (bytes.length - sequenceLen bytes.reverse)).length = sequenceLen bytes.reverse := by
      rw [length_drop]
      omega
    obtain ⟨rest, hwrite, hlength⟩ := Span.write_front (bytes.drop (bytes.length - sequenceLen bytes.reverse))
      state.partials (by rw [hstate.length]; omega)
    rw [hwrite]
    refine ⟨_, _, rfl, ⟨?_, ?_⟩, ?_⟩
    · simp only [length_append, hlength, hstate.length]
    · simp only
      omega
    · rw [U8State.kept, take_left' hpart, take_append_drop]
  · refine ⟨bytes, state, rfl, hstate, ?_⟩
    simp [U8State.kept, hgot]

variable (convert : List UInt8 → List Wchar)

theorem convertRest_exact (bytes : List UInt8) (capacity : Nat) (hstate : state.Valid) (hgot : state.got = 0) :
    ∃ call, convertRest convert bytes capacity state = some call ∧ call.Exact bytes := by
  have hnil : bytes = [] → (⟨.ok, [], state, []⟩ : U8Call).Exact bytes := by
    rintro rfl
    exact ⟨hstate, fun _ => by simp [U8State.kept, hgot]⟩
  unfold convertRest
  by_cases hempty : bytes = []
  · simp only [hempty]
    exact ⟨_, rfl, hempty ▸ hnil hempty⟩
  · obtain ⟨rest, state', hkeep, hvalid, hrest⟩ := keepPartial_exact bytes hstate hgot
    simp only [hempty, hkeep]
    by_cases hrest' : rest = []
    · subst hrest'
      exact ⟨_, rfl, hvalid, fun _ => hrest⟩
    · simp only [bind_eq_bind, bind_some, hrest', if_false]
      split
      · exact ⟨_, rfl, hvalid, fun h => nomatch h⟩
      · exact ⟨_, rfl, hvalid, fun _ => by simpa using hrest⟩

theorem completePartial_eq (bytes : List UInt8) (capacity : Nat) (hstate : state.Valid) :
    ∃ partials, partials.length = 4 ∧
      partials.take (state.got + min state.want bytes.length) = state.kept ++ bytes.take state.want ∧
      completePartial convert bytes capacity state =
        if bytes.length < state.want then
          some ⟨.ok, [], ⟨partials, state.got + bytes.length, state.want - bytes.length⟩, []⟩
        else match multiByteToWideChar convert (state.kept ++ bytes.take state.want) capacity with
          | none => some ⟨.unexpected, [], ⟨partials, state.got + state.want, 0⟩,
              [state.kept ++ bytes.take state.want]⟩
          | some wide =>
            (convertRest convert (bytes.drop state.want) (capacity - wide.length) ⟨partials, 0, 0⟩).map fun call =>
              { call with out := wide ++ call.out
                          blocks := (state.kept ++ bytes.take state.want) :: call.blocks } := by
  have hlength := hstate.length
  have hsum := hstate.sum
  have hkept : state.kept.length = state.got := by
    rw [U8State.kept, length_take]
    omega
  have htake : bytes.take (min state.want bytes.length) = bytes.take state.want := by
    rw [← take_take, take_length]
  have htaken : (bytes.take state.want).length = min state.want bytes.length := length_take
  obtain ⟨partials, hwrite, hpartials, hread⟩ : ∃ partials,
      Span.write state.got (bytes.take state.want) state.partials = some partials ∧ partials.length = 4 ∧
        partials.take (state.got + min state.want bytes.length) = state.kept ++ bytes.take state.want := by
    refine ⟨_, if_pos (by rw [htaken]; omega), ?_, ?_⟩
    · simp only [length_append, length_take, length_drop]
      omega
    · rw [← append_assoc]
      apply take_left'
      rw [length_append, htaken]
      exact congrArg (· + _) hkept
  refine ⟨partials, hpartials, hread, ?_⟩
  simp only [completePartial, htake, hwrite, bind_eq_bind, bind_some]
  split
  · rw [if_pos (by omega), Nat.min_eq_right (by omega)]
    rfl
  · rw [if_neg (by omega), Span.read, if_pos ⟨Nat.zero_le _, by omega⟩, drop_zero, Nat.sub_zero,
      hread, Nat.min_eq_left (by omega), Nat.sub_self]
    simp only [bind_some]
    split
    · rfl
    · next wide hwide => cases convertRest convert (bytes.drop state.want) (capacity - wide.length) _ <;> rfl

theorem completePartial_exact (bytes : List UInt8) (capacity : Nat) (hstate : state.Valid) :
    ∃ call, completePartial convert bytes capacity state = some call ∧ call.Exact (state.kept ++ bytes) := by
  have hsum := hstate.sum
  obtain ⟨partials, hpartials, hread, heq⟩ := completePartial_eq convert bytes capacity hstate
  rw [heq]
  split
  · next hshort =>
    refine ⟨_, rfl, ⟨hpartials, by simp only; omega⟩, fun _ => ?_⟩
    rw [Nat.min_eq_right (Nat.le_of_lt hshort), take_of_length_le (Nat.le_of_lt hshort)] at hread
    exact hread
  · split
    · exact ⟨_, rfl, ⟨hpartials, by simp only; omega⟩, fun h => nomatch h⟩
    · next wide hwide =>
      obtain ⟨call, hcall, hexact⟩ := convertRest_exact convert (bytes.drop state.want) (capacity - wide.length)
        (show U8State.Valid ⟨partials, 0, 0⟩ from ⟨hpartials, Nat.zero_le 4⟩) rfl
      rw [hcall]
      refine ⟨_, rfl, hexact.valid, fun hok => ?_⟩
      rw [flatten_cons, append_assoc, hexact.exact hok, append_assoc, take_append_drop]

theorem u8u16_exact (bytes : List UInt8) (hstate : state.Valid) :
    ∃ call, u8u16 convert bytes state = some call ∧ call.Exact (state.kept ++ bytes) := by
  unfold u8u16
  split
  · next hempty =>
    refine ⟨_, rfl, hstate, fun _ => ?_⟩
    rw [hempty, append_nil]
    rfl
  · split
    · exact ⟨_, rfl, hstate, fun h => nomatch h⟩
    · split
      · exact completePartial_exact _ _ _ hstate
      · next hgot =>
        have hzero : state.got = 0 := Decidable.not_not.mp hgot
        have hkept : state.kept = [] := by rw [U8State.kept, hzero, take_zero]
        rw [hkept]
        exact convertRest_exact _ _ _ hstate hzero

theorem u8u16Chunks_exact (chunks : List (List UInt8)) (hstate : state.Valid) :
    ∃ calls state', u8u16Chunks convert state chunks = some (calls, state') ∧ state'.Valid ∧
      ((∀ call ∈ calls, call.result = .ok) →
        (calls.flatMap U8Call.blocks).flatten ++ state'.kept = state.kept ++ chunks.flatten) := by
  induction chunks generalizing state with
  | nil => exact ⟨[], state, rfl, hstate, fun _ => by simp⟩
  | cons chunk chunks ih =>
    obtain ⟨call, hcall, hexact⟩ := u8u16_exact convert chunk hstate
    obtain ⟨calls, state', hcalls, hvalid, hrest⟩ := ih hexact.valid
    refine ⟨call :: calls, state', ?_, hvalid, ?_⟩
    · simp only [u8u16Chunks, hcall, hcalls, Option.bind_eq_bind, Option.bind_some, Option.pure_def]
    · intro hok
      rw [List.forall_mem_cons] at hok
      rw [List.flatMap_cons, List.flatten_append, List.append_assoc, hrest hok.2, ← List.append_assoc,
        hexact.exact hok.1, List.append_assoc, List.flatten_cons]

end

/-! ## Well-formed UTF-8 -/

def utf8 (text : List Char) : List UInt8 := text.flatMap String.utf8EncodeChar

/-- A concatenation of well-formed strings is converted piece by piece. -/
structure Converts (convert : List UInt8 → List Wchar) : Prop where
  append : ∀ text text', convert (utf8 text ++ utf8 text') = convert (utf8 text) ++ convert (utf8 text')
  pos : ∀ c, 0 < (convert (utf8 [c])).length
  le : ∀ c, (convert (utf8 [c])).length ≤ (utf8 [c]).length

section

variable {convert : List UInt8 → List Wchar} {text : List Char} {bytes rest : List UInt8} {state : U8State}

@[simp] theorem utf8_nil : utf8 [] = [] := rfl

theorem utf8_cons (c : Char) (text : List Char) : utf8 (c :: text) = utf8 [c] ++ utf8 text := by
  simp [utf8]

theorem utf8_append (text text' : List Char) : utf8 (text ++ text') = utf8 text ++ utf8 text' := flatMap_append

theorem utf8_singleton (c : Char) : ∃ lead conts, utf8 [c] = lead :: conts ∧
    codePointLen lead = conts.length + 1 ∧ isContinuation lead = false ∧
    ∀ byte ∈ conts, isContinuation byte = true := by
  have hone : ∀ n < 128, codePointLen (UInt8.ofNat n) = 1 ∧ isContinuation (UInt8.ofNat n) = false := by decide
  have htwo : ∀ n < 32, codePointLen (UInt8.ofNat (n + 192)) = 2 ∧ isContinuation (UInt8.ofNat (n + 192)) = false := by
    decide
  have hthree : ∀ n < 16, codePointLen (UInt8.ofNat (n + 224)) = 3 ∧
      isContinuation (UInt8.ofNat (n + 224)) = false := by decide
  have hfour : ∀ n < 8, codePointLen (UInt8.ofNat (n + 240)) = 4 ∧ isContinuation (UInt8.ofNat (n + 240)) = false := by
    decide
  have hcontinuation : ∀ n < 64, isContinuation (UInt8.ofNat (n + 128)) = true := by decide
  have h64 (n : Nat) : isContinuation (UInt8.ofNat (n % 64 + 128)) = true := hcontinuation _ (Nat.mod_lt _ (by decide))
  have heq : utf8 [c] = String.utf8EncodeChar c := by simp [utf8]
  rw [heq]
  unfold String.utf8EncodeChar
  simp only
  split
  · exact ⟨_, [], rfl, (hone _ (by omega)).1, (hone _ (by omega)).2, by simp⟩
  · split
    · exact ⟨_, [_], rfl, (htwo _ (Nat.mod_lt _ (by decide))).1, (htwo _ (Nat.mod_lt _ (by decide))).2,
        by simp only [forall_mem_cons, h64]; simp⟩
    · split
      · exact ⟨_, [_, _], rfl, (hthree _ (Nat.mod_lt _ (by decide))).1, (hthree _ (Nat.mod_lt _ (by decide))).2,
          by simp only [forall_mem_cons, h64]; simp⟩
      · exact ⟨_, [_, _, _], rfl, (hfour _ (Nat.mod_lt _ (by decide))).1, (hfour _ (Nat.mod_lt _ (by decide))).2,
          by simp only [forall_mem_cons, h64]; simp⟩

theorem utf8_length_le (c : Char) : (utf8 [c]).length ≤ 4 := by
  obtain ⟨lead, conts, hc, hlen, -⟩ := utf8_singleton c
  rw [hc, length_cons, ← hlen]
  exact codePointLen_le lead

theorem utf8_ne_nil (h : text ≠ []) : utf8 text ≠ [] := by
  obtain ⟨c, text, rfl⟩ := exists_cons_of_ne_nil h
  obtain ⟨lead, conts, hc, -⟩ := utf8_singleton c
  rw [utf8_cons, hc]
  exact cons_ne_nil _ _

theorem length_le_utf8 (text : List Char) : text.length ≤ (utf8 text).length := by
  induction text with
  | nil => exact Nat.le_refl 0
  | cons c text ih =>
    have := length_pos_of_ne_nil (utf8_ne_nil (cons_ne_nil c []))
    rw [utf8_cons, length_append, length_cons]
    omega

theorem exists_cut (h : bytes ++ rest = utf8 text) : ∃ done todo part, text = done ++ todo ∧ bytes = utf8 done ++ part ∧
    part ++ rest = utf8 todo ∧
    (part = [] ∨ ∃ c todo', todo = c :: todo' ∧ part.length < (utf8 [c]).length) := by
  induction text generalizing bytes with
  | nil =>
    simp only [utf8_nil, append_eq_nil_iff] at h
    exact ⟨[], [], [], rfl, by simp [h.1], by simp [h.2], .inl rfl⟩
  | cons c text ih =>
    rcases Nat.lt_or_ge bytes.length (utf8 [c]).length with hlt | hge
    · exact ⟨[], c :: text, bytes, rfl, by simp, h, .inr ⟨c, text, rfl, hlt⟩⟩
    · rw [utf8_cons] at h
      obtain ⟨more, rfl⟩ := prefix_of_prefix_length_le ⟨utf8 text, rfl⟩ ⟨rest, h⟩ hge
      rw [append_assoc] at h
      obtain ⟨done, todo, part, rfl, rfl, hpart, hcase⟩ := ih (append_cancel_left h)
      refine ⟨c :: done, todo, part, rfl, ?_, hpart, hcase⟩
      rw [utf8_cons c done, append_assoc]

theorem sequenceLen_append {lead : UInt8} {conts : List UInt8} (front : List UInt8)
    (hlead : isContinuation lead = false) (h : ∀ byte ∈ conts, isContinuation byte = true) :
    sequenceLen (conts ++ lead :: front) = conts.length + 1 := by
  induction conts with
  | nil => cases front <;> simp [sequenceLen, hlead]
  | cons byte conts ih =>
    rw [forall_mem_cons] at h
    have hne : conts ++ lead :: front ≠ [] := by simp
    rw [cons_append, sequenceLen.eq_3 _ _ hne, if_pos h.1, ih h.2]
    rfl

theorem keepPartial_eq (front : List UInt8) {lead : UInt8} {conts : List UInt8}
    (hlead : isContinuation lead = false) (h : ∀ byte ∈ conts, isContinuation byte = true) :
    keepPartial (front ++ lead :: conts) state =
      if codePointLen lead > conts.length + 1 then
        (Span.write 0 (lead :: conts) state.partials).map fun partials =>
          (front, ⟨partials, conts.length + 1, codePointLen lead - (conts.length + 1)⟩)
      else some (front ++ lead :: conts, state) := by
  have hsequence : sequenceLen (front ++ lead :: conts).reverse = conts.length + 1 := by
    rw [reverse_append, reverse_cons, append_assoc, singleton_append,
      sequenceLen_append _ hlead (by simpa using h), length_reverse]
  have hfront : (front ++ lead :: conts).length - (conts.length + 1) = front.length := by
    simp
  have hget : (front ++ lead :: conts).getD front.length 0 = lead := by simp
  simp only [keepPartial, hsequence, hfront, hget, drop_left', take_left']
  split
  · cases Span.write 0 (lead :: conts) state.partials <;> rfl
  · rfl

/-! ## A stream of well-formed UTF-8 -/

namespace Converts

variable (hconvert : Converts convert)
include hconvert

theorem nil : convert [] = [] := by
  have h := hconvert.append [] []
  simpa using h

theorem length_le (text : List Char) : (convert (utf8 text)).length ≤ (utf8 text).length := by
  induction text with
  | nil => simp [hconvert.nil]
  | cons c text ih =>
    rw [utf8_cons, hconvert.append, length_append, length_append]
    exact Nat.add_le_add (hconvert.le c) ih

theorem ne_nil (h : text ≠ []) : convert (utf8 text) ≠ [] := by
  cases text with
  | nil => exact absurd rfl h
  | cons c text =>
    intro heq
    have hpos := hconvert.pos c
    rw [utf8_cons, hconvert.append, append_eq_nil_iff] at heq
    rw [heq.1] at hpos
    exact absurd hpos (by simp)

theorem multiByteToWideChar_eq (h : text ≠ []) {capacity : Nat} (hcapacity : (utf8 text).length ≤ capacity) :
    multiByteToWideChar convert (utf8 text) capacity = some (convert (utf8 text)) := by
  have := hconvert.length_le text
  rw [multiByteToWideChar, if_neg]
  rintro (hnil | hlong)
  · exact hconvert.ne_nil h hnil
  · omega

end Converts

/-- The first bytes of a code point are kept; `rest` is to come. -/
structure U8State.Awaits (state : U8State) (todo : List Char) (rest : List UInt8) : Prop where
  valid : state.Valid
  bytes : state.kept ++ rest = utf8 todo
  pending : state.got = 0 ∨ ∃ c todo', todo = c :: todo' ∧ state.got < (utf8 [c]).length ∧
    state.got + state.want = (utf8 [c]).length

/-- A call that gets through converts some more of the text. -/
structure U8Call.Converted (call : U8Call) (convert : List UInt8 → List Wchar) (todo : List Char)
    (rest : List UInt8) : Prop where
  result : call.result = .ok
  out : ∃ done todo', todo = done ++ todo' ∧ call.out = convert (utf8 done) ∧ call.state.Awaits todo' rest

theorem keepPartial_whole (h : text ≠ []) : keepPartial (utf8 text) state = some (utf8 text, state) := by
  obtain ⟨front, c, rfl⟩ := (eq_nil_or_concat' text).resolve_left h
  obtain ⟨lead, conts, hc, hlen, hlead, hcontinuations⟩ := utf8_singleton c
  rw [utf8_append, hc, keepPartial_eq _ hlead hcontinuations, if_neg (by omega)]

theorem keepPartial_cut (hstate : state.Valid) (text : List Char) {part more : List UInt8} {c : Char}
    (hpart : part ≠ []) (h : part ++ more = utf8 [c]) (hlt : part.length < (utf8 [c]).length) :
    ∃ tail, keepPartial (utf8 text ++ part) state =
        some (utf8 text, ⟨part ++ tail, part.length, (utf8 [c]).length - part.length⟩) ∧
      part.length + tail.length = 4 := by
  obtain ⟨lead, conts, hc, hlen, hlead, hcontinuations⟩ := utf8_singleton c
  have hle := codePointLen_le lead
  rw [hc] at h hlt ⊢
  obtain ⟨byte, part, rfl⟩ := exists_cons_of_ne_nil hpart
  rw [cons_append, cons.injEq] at h
  obtain ⟨rfl, rfl⟩ := h
  simp only [length_cons] at hlt hlen ⊢
  obtain ⟨tail, hwrite, htail⟩ := Span.write_front (byte :: part) state.partials (by
    rw [hstate.length, length_cons]
    omega)
  refine ⟨tail, ?_, by rw [← hstate.length, ← htail, length_cons]⟩
  rw [keepPartial_eq _ hlead fun b hb => hcontinuations b (mem_append_left _ hb), if_pos (by omega), hwrite, hlen]
  rfl

theorem convertRest_converted (hconvert : Converts convert) (hstate : state.Valid) (hgot : state.got = 0)
    (h : bytes ++ rest = utf8 text) {capacity : Nat} (hcapacity : bytes.length ≤ capacity) :
    ∃ call, convertRest convert bytes capacity state = some call ∧ call.Converted convert text rest := by
  have hkept : state.kept = [] := by rw [U8State.kept, hgot, take_zero]
  by_cases hempty : bytes = []
  · subst hempty
    refine ⟨_, by simp [convertRest]; rfl, rfl, [], text, rfl, hconvert.nil.symm, hstate, ?_, .inl hgot⟩
    rw [hkept]
    exact h
  · obtain ⟨done, todo, part, rfl, rfl, hpart, hcase⟩ := exists_cut h
    rw [length_append] at hcapacity
    have hfinish (state' : U8State) (hkeep : keepPartial (utf8 done ++ part) state = some (utf8 done, state'))
        (hawaits : state'.Awaits todo rest) :
          ∃ call, convertRest convert (utf8 done ++ part) capacity state = some call ∧
          call.Converted convert (done ++ todo) rest := by
      simp only [convertRest, hempty, hkeep, bind_eq_bind, bind_some]
      rcases Decidable.em (done = []) with rfl | hdone
      · exact ⟨_, rfl, rfl, [], todo, rfl, hconvert.nil.symm, hawaits⟩
      · simp only [utf8_ne_nil hdone, hconvert.multiByteToWideChar_eq hdone (show _ ≤ capacity by omega)]
        exact ⟨_, rfl, rfl, done, todo, rfl, rfl, hawaits⟩
    -- either the chunk ends with a code point, or it cuts one off after `part`
    rcases Decidable.em (part = []) with rfl | hne
    · have hdone : done ≠ [] := by
        rintro rfl
        exact hempty rfl
      refine hfinish state ?_ ⟨hstate, by rw [hkept]; exact hpart, .inl hgot⟩
      rw [append_nil]
      exact keepPartial_whole hdone
    · obtain ⟨c, todo, rfl, hlt⟩ := hcase.resolve_left hne
      rw [utf8_cons] at hpart
      obtain ⟨more, hmore⟩ := prefix_of_prefix_length_le ⟨rest, hpart⟩ ⟨utf8 todo, rfl⟩ (Nat.le_of_lt hlt)
      obtain ⟨tail, hkeep, htail⟩ := keepPartial_cut hstate done hne hmore hlt
      refine hfinish _ hkeep ⟨⟨by rw [length_append, htail], ?_⟩, ?_, .inr ⟨c, todo, rfl, hlt, ?_⟩⟩
      · have := utf8_length_le c
        simp only
        omega
      · rw [U8State.kept, take_left' rfl, utf8_cons]
        exact hpart
      · simp only
        omega

theorem completePartial_converted (hconvert : Converts convert) (hstate : state.Valid) {c : Char}
    (hgot : state.got < (utf8 [c]).length) (hwant : state.got + state.want = (utf8 [c]).length)
    (h : state.kept ++ (bytes ++ rest) = utf8 (c :: text)) {capacity : Nat}
    (hcapacity : bytes.length + state.got ≤ capacity) :
    ∃ call, completePartial convert bytes capacity state = some call ∧ call.Converted convert (c :: text) rest := by
  have hsum := hstate.sum
  have hkept : state.kept.length = state.got := by
    have := hstate.length
    rw [U8State.kept, length_take]
    omega
  obtain ⟨partials, hpartials, hread, heq⟩ := completePartial_eq convert bytes capacity hstate
  rw [heq]
  split
  · next hshort =>
    -- the chunk ends within the code point
    rw [Nat.min_eq_right (Nat.le_of_lt hshort), take_of_length_le (Nat.le_of_lt hshort)] at hread
    refine ⟨_, rfl, rfl, [], c :: text, rfl, hconvert.nil.symm, ⟨hpartials, by simp only; omega⟩, ?_, ?_⟩
    · rw [U8State.kept, hread, append_assoc]
      exact h
    · exact .inr ⟨c, text, rfl, by simp only; omega, by simp only; omega⟩
  · rw [utf8_cons, ← take_append_drop state.want bytes, append_assoc, ← append_assoc state.kept] at h
    have hlength : (state.kept ++ bytes.take state.want).length = (utf8 [c]).length := by
      rw [length_append, length_take]
      omega
    obtain ⟨hblock, htext⟩ := append_inj h hlength
    have hle := hconvert.le c
    rw [hblock, hconvert.multiByteToWideChar_eq (cons_ne_nil c []) (by omega)]
    obtain ⟨call, hcall, hresult, done, todo, rfl, hout, hawaits⟩ := convertRest_converted hconvert
      (show U8State.Valid ⟨partials, 0, 0⟩ from ⟨hpartials, Nat.zero_le 4⟩) rfl htext
      (show _ ≤ capacity - (convert (utf8 [c])).length by rw [length_drop]; omega)
    simp only [hcall, map_some]
    refine ⟨_, rfl, hresult, c :: done, todo, rfl, ?_, hawaits⟩
    rw [utf8_cons c done, hconvert.append, hout]

theorem u8u16_converted (hconvert : Converts convert) (h : state.Awaits text (bytes ++ rest))
    (habort : bytes.length + state.got ≤ intMax) :
    ∃ call, u8u16 convert bytes state = some call ∧ call.Converted convert text rest := by
  unfold u8u16
  split
  · next hempty =>
    subst hempty
    exact ⟨_, rfl, rfl, [], text, rfl, hconvert.nil.symm, h⟩
  · rw [if_neg (by omega)]
    split
    · next hgot =>
      obtain ⟨c, text, rfl, hlt, hwant⟩ := h.pending.resolve_left hgot
      exact completePartial_converted hconvert h.valid hlt hwant h.bytes (Nat.le_refl _)
    · next hgot =>
      have hzero : state.got = 0 := Decidable.not_not.mp hgot
      have hbytes := h.bytes
      rw [U8State.kept, hzero, take_zero, nil_append] at hbytes
      exact convertRest_converted hconvert h.valid hzero hbytes (Nat.le_add_right _ _)

theorem u8u16Chunks_converted (hconvert : Converts convert) {chunks : List (List UInt8)} {calls : List U8Call}
    {state' : U8State} (hawaits : state.Awaits text (chunks.flatten ++ rest))
    (hcalls : u8u16Chunks convert state chunks = some (calls, state'))
    (habort : ∀ call ∈ calls, call.result ≠ .abort) :
    (∀ call ∈ calls, call.result = .ok) ∧ ∃ done todo, text = done ++ todo ∧
      calls.flatMap U8Call.out = convert (utf8 done) ∧ state'.Awaits todo rest := by
  induction chunks generalizing state text calls with
  | nil =>
    cases hcalls
    exact ⟨by simp, [], text, rfl, by simp [hconvert.nil], hawaits⟩
  | cons chunk chunks ih =>
    rw [flatten_cons, append_assoc] at hawaits
    simp only [u8u16Chunks, Option.bind_eq_bind, Option.bind_eq_some_iff, Option.pure_def, Option.some.injEq,
      Prod.mk.injEq, Prod.exists] at hcalls
    obtain ⟨call, hcall, calls, state'', hrest, rfl, rfl⟩ := hcalls
    rw [forall_mem_cons] at habort
    have hfits : chunk.length + state.got ≤ intMax := by
      by_contra hlong
      have hne : chunk ≠ [] := by
        rintro rfl
        have hsum := hawaits.valid.sum
        have : 4 ≤ intMax := by decide
        rw [length_nil] at hlong
        omega
      rw [u8u16, if_neg hne, if_pos (by omega)] at hcall
      cases hcall
      exact habort.1 rfl
    obtain ⟨call', hcall', hresult, done, todo, rfl, hout, hnext⟩ := u8u16_converted hconvert hawaits hfits
    obtain rfl : call = call' := by
      rw [hcall] at hcall'
      exact some.inj hcall'
    obtain ⟨hok, done', todo', rfl, hout', hlast⟩ := ih hnext hrest habort.2
    refine ⟨forall_mem_cons.mpr ⟨hresult, hok⟩, done ++ done', todo', by rw [append_assoc], ?_, hlast⟩
    rw [flatMap_cons, hout, hout', utf8_append, hconvert.append]

theorem U8State.Awaits.eq_nil (h : state.Awaits text []) : text = [] := by
  have hbytes := h.bytes
  rw [append_nil] at hbytes
  rcases h.pending with hgot | ⟨c, todo, rfl, hlt, -⟩
  · rw [U8State.kept, hgot] at hbytes
    by_contra hne
    exact utf8_ne_nil hne hbytes.symm
  · have hkept : state.kept.length ≤ state.got := length_take_le _ _
    rw [hbytes, utf8_cons, length_append] at hkept
    omega

end

/-! ## The stream -/

/-- However a stream is cut, a well-formed one is converted as a whole unless a call is aborted. -/
theorem u8u16Chunks_stream (convert : List UInt8 → List Wchar) (chunks : List (List UInt8)) :
    ∃ calls state, u8u16Chunks convert {} chunks = some (calls, state) ∧ state.got + state.want ≤ 4 ∧
      ((∀ call ∈ calls, call.result = .ok) → (calls.flatMap U8Call.blocks).flatten ++ state.kept = chunks.flatten) ∧
      (Converts convert → ∀ text, chunks.flatten = utf8 text → (∀ call ∈ calls, call.result ≠ .abort) →
        (∀ call ∈ calls, call.result = .ok) ∧ calls.flatMap U8Call.out = convert (utf8 text)) := by
  obtain ⟨calls, state, hcalls, hvalid, hexact⟩ := u8u16Chunks_exact convert chunks valid_fresh
  refine ⟨calls, state, hcalls, hvalid.sum, hexact, ?_⟩
  intro hconvert text htext habort
  have hawaits : ({} : U8State).Awaits text (chunks.flatten ++ []) :=
    ⟨valid_fresh, by rw [append_nil, htext]; rfl, .inl rfl⟩
  obtain ⟨hok, done, todo, rfl, hout, hrest⟩ := u8u16Chunks_converted hconvert hawaits hcalls habort
  rw [hrest.eq_nil, append_nil]
  exact ⟨hok, hout⟩

def utf16Char (c : Char) : List Wchar :=
  if c.toNat < 0x10000 then [BitVec.ofNat 16 c.toNat]
  else [BitVec.ofNat 16 (0xD800 + (c.toNat - 0x10000) / 0x400), BitVec.ofNat 16 (0xDC00 + (c.toNat - 0x10000) % 0x400)]

def wideOfUtf8 (bytes : List UInt8) : List Wchar :=
  match bytes.toByteArray.utf8Decode? with
  | some text => text.toList.flatMap utf16Char
  | none => bytes.map fun _ => 0xFFFD

theorem wideOfUtf8_utf8 (text : List Char) : wideOfUtf8 (utf8 text) = text.flatMap utf16Char := by
  have h := utf8Decode?_utf8Encode (l := text)
  unfold utf8Encode at h
  rw [wideOfUtf8, utf8, h]

theorem converts_wideOfUtf8 : Converts wideOfUtf8 where
  append text text' := by
    rw [← utf8_append, wideOfUtf8_utf8, wideOfUtf8_utf8, wideOfUtf8_utf8, flatMap_append]
  pos c := by
    rw [wideOfUtf8_utf8, flatMap_singleton, utf16Char]
    split <;> simp
  le c := by
    rw [wideOfUtf8_utf8, flatMap_singleton, utf16Char]
    split
    · exact length_pos_of_ne_nil (utf8_ne_nil (cons_ne_nil c []))
    · next h =>
      have hsize : 1 < (utf8 [c]).length := by
        rw [utf8, flatMap_singleton, String.utf8EncodeChar]
        rw [if_neg (show ¬c.val.toNat ≤ 127 from fun hle => h (Nat.lt_of_le_of_lt hle (by decide)))]
        split
        · simp
        · split <;> simp
      exact hsize

theorem u8u16Chunks_stream_cat : ∃ calls state, u8u16Chunks wideOfUtf8 {} [[0xE7, 0x8C], [0xAB]] = some (calls, state) ∧
      (∀ call ∈ calls, call.result = .ok) ∧ calls.flatMap U8Call.out = wideOfUtf8 (utf8 [Char.ofNat 0x732B]) := by
  obtain ⟨calls, state, hcalls, -, -, hstream⟩ := u8u16Chunks_stream wideOfUtf8 [[0xE7, 0x8C], [0xAB]]
  refine ⟨calls, state, hcalls, hstream converts_wideOfUtf8 [Char.ofNat 0x732B] (by decide) ?_⟩
  cases hcalls
  decide

/-- A chunk too long for an `int` is refused, and its bytes are lost. -/
theorem u8u16Chunks_refuses : ∃ text chunks calls state, chunks.flatten = utf8 text ∧
    u8u16Chunks wideOfUtf8 {} chunks = some (calls, state) ∧ calls.flatMap U8Call.out ≠ wideOfUtf8 (utf8 text) ∧
      (calls.flatMap U8Call.blocks).flatten ++ state.kept ≠ chunks.flatten := by
  have htexts (n : Nat) : ∃ text : List Char, text.length = n := ⟨replicate n default, length_replicate⟩
  obtain ⟨text, hlength⟩ := htexts (2 ^ 31)
  have hlong : intMax < (utf8 text).length := by
    have hle := length_le_utf8 text
    have hmax : intMax < 2 ^ 31 := by decide
    omega
  have hne : utf8 text ≠ [] := ne_nil_of_length_pos (by omega)
  have htext : text ≠ [] := fun h => hne (by rw [h]; rfl)
  refine ⟨text, [utf8 text], [⟨.abort, [], {}, []⟩], {}, by simp, ?_, ?_, ?_⟩
  · simp only [u8u16Chunks, u8u16, hne, Nat.add_zero, hlong]
    rfl
  · exact (converts_wideOfUtf8.ne_nil htext).symm
  · simpa [U8State.kept] using hne.symm

end Terminal.Til
