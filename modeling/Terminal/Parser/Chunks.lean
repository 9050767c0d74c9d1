import Terminal.Parser.Rules
import Terminal.Parser.Sim

/-!
# How a string is cut into chunks does not matter

`ProcessString` prints in bulk and parses the rest one by one. `feed` is the same work one by one,
with the text that waits to be printed made explicit.
-/

namespace Terminal.Parser

open StateMachine List

/-! ## Logs up to how printed text was cut -/

def printText : Call → Option (List Wchar)
  | .print wch => some [wch]
  | .printString string => some string
  | _ => none

def consText (s : List Wchar) (calls : List Call) : List Call :=
  match calls with
  | .printString t :: more => .printString (s ++ t) :: more
  | _ => .printString s :: calls

def consCall (c : Call) (calls : List Call) : List Call :=
  match printText c with
  | some s => consText s calls
  | none => c :: calls

def joinPrints (calls : List Call) : List Call := calls.foldr consCall []

/-- One call for every printed code unit, none for a print of nothing. -/
def printed (calls : List Call) : List Call :=
  calls.flatMap fun c => match printText c with
    | some s => s.map Call.print
    | none => [c]

theorem printed_append (a b : List Call) : printed (a ++ b) = printed a ++ printed b := by
  simp [printed]

theorem joinPrints_cons (c : Call) (l : List Call) : joinPrints (c :: l) = consCall c (joinPrints l) := rfl

theorem joinPrints_append_right (a : List Call) {b b' : List Call} (h : joinPrints b = joinPrints b') :
    joinPrints (a ++ b) = joinPrints (a ++ b') := by
  induction a with
  | nil => exact h
  | cons c a ih => rw [cons_append, cons_append, joinPrints_cons, joinPrints_cons, ih]

theorem consText_append (s t : List Wchar) (l : List Call) : consText (s ++ t) l = consText s (consText t l) := by
  unfold consText
  split <;> simp

theorem joinPrints_consText (s : List Wchar) (l b : List Call) :
    joinPrints (consText s l ++ b) = consText s (joinPrints (l ++ b)) := by
  have hps : ∀ t k, joinPrints (.printString t :: k) = consText t (joinPrints k) := fun _ _ => rfl
  rw [consText.eq_def s l]
  split
  · rw [cons_append, cons_append, hps, hps, consText_append]
  · rw [cons_append, hps]

theorem joinPrints_consCall (c : Call) (l b : List Call) :
    joinPrints (consCall c l ++ b) = consCall c (joinPrints (l ++ b)) := by
  cases hc : printText c with
  | some s => simp only [consCall, hc, joinPrints_consText]
  | none => simp only [consCall, hc, cons_append, joinPrints_cons]

theorem joinPrints_append (a b : List Call) : joinPrints (a ++ b) = joinPrints (joinPrints a ++ b) := by
  induction a with
  | nil => rfl
  | cons c a ih => rw [cons_append, joinPrints_cons, joinPrints_cons, joinPrints_consCall, ih]

theorem joinPrints_append_left {a a' : List Call} (h : joinPrints a = joinPrints a') (b : List Call) :
    joinPrints (a ++ b) = joinPrints (a' ++ b) := by
  rw [joinPrints_append, h, ← joinPrints_append]

theorem printed_consText (s : List Wchar) (l : List Call) : printed (consText s l) = s.map Call.print ++ printed l := by
  unfold consText
  split <;> simp [printed, printText]

theorem printed_consCall (c : Call) (l : List Call) : printed (consCall c l) = printed (c :: l) := by
  cases hc : printText c with
  | some s =>
    simp only [consCall, hc, printed_consText]
    simp [printed, hc]
  | none => simp [consCall, hc]

theorem printed_joinPrints (a : List Call) : printed (joinPrints a) = printed a := by
  induction a with
  | nil => rfl
  | cons c a ih =>
    rw [joinPrints_cons, printed_consCall]
    simp only [printed, flatMap_cons] at ih ⊢
    rw [ih]

variable {b a : List Call} {k : Nat} {f : List Call → List Call} {E : Engine} {x : StateMachine × List Wchar}

theorem printed_of_joinPrints (h : joinPrints a = joinPrints b) : printed a = printed b := by
  rw [← printed_joinPrints a, h, printed_joinPrints]

/-- The same first `k` calls, and the same after them as far as `f` tells. -/
structure Since (f : List Call → List Call) (k : Nat) (a b : List Call) : Prop where
  left : k ≤ a.length
  right : k ≤ b.length
  old : a.take k = b.take k
  new : f (a.drop k) = f (b.drop k)

theorem Since.refl (f : List Call → List Call) (h : k ≤ a.length) : Since f k a a := ⟨h, h, rfl, rfl⟩

theorem Since.symm (h : Since f k a b) : Since f k b a := ⟨h.right, h.left, h.old.symm, h.new.symm⟩

theorem Since.trans {a b c : List Call} (h : Since f k a b) (h' : Since f k b c) : Since f k a c :=
  ⟨h.left, h'.right, h.old.trans h'.old, h.new.trans h'.new⟩

theorem Since.append {a b c d : List Call} (h : Since f k a b)
    (hf : f (a.drop k ++ c) = f (b.drop k ++ d)) : Since f k (a ++ c) (b ++ d) := by
  refine ⟨?_, ?_, ?_, ?_⟩
  · rw [length_append]
    exact Nat.le_add_right_of_le h.left
  · rw [length_append]
    exact Nat.le_add_right_of_le h.right
  · rw [take_append_of_le_length h.left, take_append_of_le_length h.right, h.old]
  · rw [drop_append_of_le_length h.left, drop_append_of_le_length h.right, hf]

theorem Since.printed (hf : ∀ {u v}, f u = f v → printed u = printed v)
    (h : Since f k a b) : Parser.printed a = Parser.printed b := by
  rw [← take_append_drop k a, ← take_append_drop k b, printed_append, printed_append, h.old, hf h.new]

/-! ## Engines that only listen -/

/-- No handler, no callback; answers do not depend on how the text was cut. -/
structure Quiet (D : List Call → Reply) : Prop where
  blind : ∀ h h', printed h = printed h' → D h = D h'
  handler : ∀ h k, (D h).handler = some k → k = .engine
  macroText : ∀ h, (D h).macroText = none

structure Listens (E : Engine) : Prop where
  reply : ∀ {a b : List Call} (c : Call), printed a = printed b → E.dispatch (a ++ [c]) = E.dispatch (b ++ [c])
  flushes : ∀ c r, E.flushes c r = false
  handler : ∀ h k, (E.dispatch h).handler = some k → k = .engine
  macroText : ∀ h, (E.dispatch h).macroText = none
  print : ∀ p m, actionPrintString E p m = { m with calls := m.calls ++ [.printString p] }
  printOne : ∀ wch m, actionPrint E wch m = { m with calls := m.calls ++ [.print wch] }

section

variable {D : List Call → Reply} {E : Engine} {inject : List Wchar → StateMachine → StateMachine}

theorem listens_outputEngine (hD : Quiet D) : Listens (outputEngine false D inject) where
  reply := by
    intro a b c h
    have hd : D (a ++ [c]) = D (b ++ [c]) := by
      apply hD.blind
      rw [printed_append, printed_append, h]
    cases c <;> simp [outputEngine, hd]
  flushes _ _ := rfl
  handler := by
    intro h k hk
    simp only [outputEngine] at hk
    split at hk <;> try split at hk
    all_goals first
      | exact hD.handler _ k hk
      | simpa using hk.symm
  macroText := by
    intro h
    simp only [outputEngine]
    split <;> try split
    all_goals first
      | exact hD.macroText _
      | rfl
  print p m := by simp [actionPrintString, notify, call, outputEngine]
  printOne wch m := by simp [actionPrint, notify, call, outputEngine]

theorem tracks_of_printed (hE : Listens E) {R : List Call → List Call → Prop} (hR : ∀ {a b}, R a b →
    printed a = printed b)
    (happ : ∀ {a b} (c : Call), R a b → R (a ++ [c]) (b ++ [c])) : Tracks E R :=
  ⟨happ, fun c h => hE.reply c (hR h), hE.flushes, hE.handler, hE.macroText⟩

theorem tracks_eq (hE : Listens E) : Tracks E Eq := tracks_of_printed hE (fun h => by rw [h]) (fun c h => by rw [h])

theorem tracks_joinPrints (hE : Listens E) (k : Nat) : Tracks E (Since joinPrints k) :=
  tracks_of_printed hE (Since.printed printed_of_joinPrints) (fun _ h => h.append (joinPrints_append_left h.new _))

theorem tracks_printed (hE : Listens E) (k : Nat) : Tracks E (Since printed k) :=
  tracks_of_printed hE (Since.printed id) (fun c h => h.append (by rw [printed_append, printed_append, h.new]))

end

/-! ## One character at a time -/

/-- Back in the ground state, characters may be printed in bulk again. -/
def settle (m : StateMachine) : StateMachine :=
  if m.state = .ground then { m with processingIndividually := false } else m

/-- One turn of the loop, with the text that waits to be printed. -/
def feed (E : Engine) (x : StateMachine × List Wchar) (wch : Wchar) : StateMachine × List Wchar :=
  if x.1.processingIndividually then (settle (processCharacter E wch x.1), [])
  else if isActionableFromGround wch then
    (settle (processCharacter E wch { actionPrintString E x.2 x.1 with processingIndividually := true }), [])
  else (x.1, x.2 ++ [wch])

theorem feed_individually (h : x.1.processingIndividually = true) (wch : Wchar) :
    feed E x wch = (settle (processCharacter E wch x.1), []) := if_pos h

theorem feed_actionable (h : ¬x.1.processingIndividually = true) {wch : Wchar}
    (hact : isActionableFromGround wch = true) : feed E x wch =
      (settle (processCharacter E wch { actionPrintString E x.2 x.1 with processingIndividually := true }), []) :=
  (if_neg h).trans (if_pos hact)

theorem feed_text (h : ¬x.1.processingIndividually = true) {wch : Wchar} (hact : ¬isActionableFromGround wch = true) :
    feed E x wch = (x.1, x.2 ++ [wch]) := (if_neg h).trans (if_neg hact)

def finish (E : Engine) (x : StateMachine × List Wchar) : StateMachine :=
  if !x.1.processingIndividually && !x.2.isEmpty then actionPrintString E x.2 x.1 else x.1

/-- They differ at most in the bookkeeping of their strings. -/
structure Same (m n : StateMachine) : Prop where
  core : m.core = n.core
  calls : m.calls = n.calls
  flag : m.processingIndividually = n.processingIndividually

section

variable {E : Engine} {s : List Wchar} {b : Bool} {m n : StateMachine}

theorem Same.sim (h : Same m n) (hf : Framed s b m) : Sim Eq s b m n := ⟨h.core, h.calls, hf⟩

theorem Framed.of_core (hf : Framed s b m) (h : m.core = n.core) :
    Framed n.currentString n.processingIndividually n where
  handler k hk := hf.handler k ((congrArg (·.dcsStringHandler) h).trans hk)
  callback := (congrArg (·.onCsiCompleteCallback) h).symm.trans hf.callback
  string := rfl
  flag := rfl
  output := (congrArg (·.isEngineForInput) h).symm.trans hf.output

theorem processCharacter_framed (ht : Tracks E Eq) (h : Framed s b m) (wch : Wchar) :
    Framed s b (processCharacter E wch m) := (processCharacter_sim ht ⟨rfl, rfl, h⟩ wch).framed

theorem processCharacter_same (ht : Tracks E Eq) (hf : Framed s b m) (h : Same m n) (wch : Wchar) :
    Same (processCharacter E wch m) (processCharacter E wch n) := by
  have hs := processCharacter_sim ht (h.sim hf) wch
  refine ⟨hs.core, hs.calls, ?_⟩
  rw [hs.framed.flag, (processCharacter_framed ht (hf.of_core h.core) wch).flag, ← h.flag, hf.flag]

theorem actionPrintString_same (ht : Tracks E Eq) (hf : Framed s b m) (h : Same m n) (p : List Wchar) :
    Framed s b (actionPrintString E p m) ∧ Same (actionPrintString E p m) (actionPrintString E p n) := by
  have hs : Sim Eq s b (actionPrintString E p m) (actionPrintString E p n) := notify_sim ht (h.sim hf) _
  have hn : Sim Eq _ _ (actionPrintString E p n) (actionPrintString E p n) :=
    notify_sim ht ⟨rfl, rfl, hf.of_core h.core⟩ _
  refine ⟨hs.framed, hs.core, hs.calls, ?_⟩
  rw [hs.framed.flag, hn.framed.flag, ← h.flag, hf.flag]

theorem processIndividually_settle (ht : Tracks E Eq) (hf : Framed s true m) (h : Same m n)
    (wch : Wchar) (last : Bool) (start current : Nat) :
    ∃ b', Framed s b' (processIndividually E wch last start current m).2 ∧
      Same (processIndividually E wch last start current m).2 (settle (processCharacter E wch n)) ∧
      (processIndividually E wch last start current m).1 = if b' then start else current + 1 := by
  let m' := { m with
    runOffset := start, runSize := some (current - start + 1), processingLastCharacter := last }
  have hf' : Framed s true m' := { hf with }
  have h' : Same m' n := { h with }
  have hfp := processCharacter_framed ht hf' wch
  have hp := processCharacter_same ht hf' h' wch
  have hstate : (processCharacter E wch m').state = (processCharacter E wch n).state := congrArg (·.state) hp.core
  have hdef : processIndividually E wch last start current m =
      if (processCharacter E wch m').state = .ground then
        (current + 1, { processCharacter E wch m' with processingIndividually := false })
      else (start, processCharacter E wch m') := rfl
  rw [hdef]
  unfold settle
  by_cases hg : (processCharacter E wch m').state = .ground
  · rw [if_pos hg, if_pos (hstate ▸ hg)]
    exact ⟨false, { hfp with flag := rfl }, ⟨hp.core, hp.calls, rfl⟩, rfl⟩
  · rw [if_neg hg, if_neg (hstate ▸ hg)]
    exact ⟨true, hfp, hp, rfl⟩

variable {wch : Wchar} {last : Bool} {start current : Nat}

theorem turn_individually (h : m.processingIndividually = true) :
    turn E wch last start current m = processIndividually E wch last start current
      { m with runOffset := start, runSize := some (current - start + 1) } := if_pos h

theorem turn_actionable (h : ¬m.processingIndividually = true) (hact : isActionableFromGround wch = true) :
    turn E wch last start current m = processIndividually E wch last current current
      { actionPrintString E ((m.currentString.drop start).take (current - start))
          { m with runOffset := start, runSize := some (current - start) } with
        processingIndividually := true } := (if_neg h).trans (if_pos hact)

theorem turn_text (h : ¬m.processingIndividually = true) (hact : ¬isActionableFromGround wch = true) :
    turn E wch last start current m = (start, { m with runOffset := start, runSize := some (current - start + 1) }) :=
  (if_neg h).trans (if_neg hact)

theorem take_drop_succ (hsc : start ≤ current) (hlt : current < s.length) :
    (s.drop start).take (current + 1 - start) = (s.drop start).take (current - start) ++ [s[current]] := by
  have hk : current - start < (s.drop start).length := by rw [length_drop]; omega
  have hget : (s.drop start)[current - start] = s[current] := by
    rw [getElem_drop]
    congr 1; omega
  rw [show current + 1 - start = (current - start) + 1 by omega, take_add_one, getElem?_eq_getElem hk, hget]
  rfl

theorem drop_eq_cons {rest : List Wchar} (h : s.drop current = wch :: rest) :
    ∃ hlt : current < s.length, s[current] = wch ∧ s.drop (current + 1) = rest := by
  have hlt : current < s.length := by
    by_contra hge
    rw [drop_eq_nil_of_le (by omega)] at h
    exact cons_ne_nil _ _ h.symm
  rw [drop_eq_getElem_cons hlt] at h
  exact ⟨hlt, cons.inj h⟩

theorem turn_feed (ht : Tracks E Eq) {x : StateMachine × List Wchar} (last : Bool)
    (hf : Framed s b m) (h : Same m x.1) (hsc : start ≤ current) (hlt : current < s.length)
    (hx : x.2 = if b then [] else (s.drop start).take (current - start)) :
    ∃ b', Framed s b' (turn E s[current] last start current m).2 ∧
      Same (turn E s[current] last start current m).2 (feed E x s[current]).1 ∧
      (turn E s[current] last start current m).1 ≤ current + 1 ∧
      (feed E x s[current]).2 = if b' then [] else
        (s.drop (turn E s[current] last start current m).1).take
          (current + 1 - (turn E s[current] last start current m).1) := by
  have hflag : x.1.processingIndividually = b := by rw [← h.flag, hf.flag]
  cases b with
  | true =>
    -- Every character goes through `ProcessCharacter`.
    rw [turn_individually hf.flag, feed_individually hflag]
    obtain ⟨b', hf', h', hs'⟩ := processIndividually_settle ht
      (m := { m with runOffset := start, runSize := some (current - start + 1) }) (n := x.1)
      { hf with } { h with } s[current] last start current
    rw [hs']
    refine ⟨b', hf', h', ?_, ?_⟩
    · split <;> omega
    · cases b' <;> simp
  | false =>
    have hm : ¬m.processingIndividually = true := by simp [hf.flag]
    have hxm : ¬x.1.processingIndividually = true := by simp [hflag]
    rw [if_neg (by decide)] at hx
    by_cases hact : isActionableFromGround s[current] = true
    · have hrun : (m.currentString.drop start).take (current - start) = x.2 := by rw [hf.string, hx]
      rw [turn_actionable hm hact, feed_actionable hxm hact, hrun]
      obtain ⟨hf₀, h₀⟩ := actionPrintString_same ht
        (m := { m with runOffset := start, runSize := some (current - start) }) (n := x.1)
        { hf with } { h with } x.2
      obtain ⟨b', hf', h', hs'⟩ := processIndividually_settle (s := s) ht
        (m := { actionPrintString E x.2 { m with runOffset := start, runSize := some (current - start) } with
          processingIndividually := true })
        (n := { actionPrintString E x.2 x.1 with processingIndividually := true })
        { hf₀ with flag := rfl } ⟨h₀.core, h₀.calls, rfl⟩
        s[current] last current current
      refine ⟨b', hf', h', ?_, ?_⟩
      · rw [hs']
        split <;> omega
      · rw [hs']
        cases b' <;> simp
    · rw [turn_text hm hact, feed_text hxm hact]
      refine ⟨false, { hf with }, { h with }, by simp only; omega, ?_⟩
      rw [if_neg (by decide), hx, take_drop_succ hsc hlt]

theorem processLoop_feed (ht : Tracks E Eq) (rest : List Wchar) :
    ∀ (start current : Nat) (b : Bool) (m : StateMachine) (x : StateMachine × List Wchar),
      Framed s b m → Same m x.1 → s.drop current = rest → start ≤ current → current ≤ s.length →
      x.2 = (if b then [] else (s.drop start).take (current - start)) →
      ∃ b', Framed s b' (processLoop E rest start current m).2 ∧
        Same (processLoop E rest start current m).2 (rest.foldl (feed E) x).1 ∧
        (rest.foldl (feed E) x).2 = if b' then [] else s.drop (processLoop E rest start current m).1 := by
  induction rest with
  | nil =>
    intro start current b m x hf h hdrop hsc hcl hx
    have hlen : s.length = current := by
      have := drop_eq_nil_iff.mp hdrop
      omega
    refine ⟨b, hf, h, ?_⟩
    simp only [foldl_nil, processLoop, hx]
    rw [take_of_length_le (by rw [length_drop]; omega)]
  | cons wch rest ih =>
    intro start current b m x hf h hdrop hsc hcl hx
    obtain ⟨hlt, rfl, hrest⟩ := drop_eq_cons hdrop
    obtain ⟨b', hf', h', hle, hx'⟩ := turn_feed ht rest.isEmpty hf h hsc hlt hx
    exact ih _ _ b' _ _ hf' h' hrest hle (by omega) hx'

theorem finishRun_eq (start : Nat) (m : StateMachine) : (finishRun start m).currentRun = m.currentString.drop start ∧
      ∃ offset size, finishRun start m = { m with runOffset := offset, runSize := size } := by
  unfold finishRun
  split
  · exact ⟨rfl, start, none, rfl⟩
  · rw [drop_eq_nil_of_le (by omega)]
    simp [currentRun]

theorem finishString_finish (ht : Tracks E Eq) {y : StateMachine × List Wchar}
    (hf : Framed s b m) (h : Same m y.1) (hy : y.2 = if b then [] else s.drop start) :
    Framed s b (finishString E start m) ∧ Same (finishString E start m) (finish E y) := by
  obtain ⟨hrun, offset, size, hfin⟩ := finishRun_eq start m
  have hf' : Framed s b (finishRun start m) := by
    rw [hfin]
    exact { hf with }
  have h' : Same (finishRun start m) y.1 := by
    rw [hfin]
    exact { h with }
  have hflag : y.1.processingIndividually = b := by rw [← h'.flag, hf'.flag]
  unfold finishString
  dsimp only
  rw [hrun, hf.string]
  cases b with
  | true =>
    have hidle : finish E y = y.1 := if_neg (by simp [hflag])
    rw [hidle, if_neg (by simp [hf'.flag]), if_pos hf'.flag, if_neg (by simp [hf'.output])]
    split
    · exact ⟨{ hf' with }, h'.core, h'.calls, h'.flag⟩
    · exact ⟨hf', h'⟩
  | false =>
    unfold finish
    rw [hflag, hy, hf'.flag]
    simp only [Bool.false_eq_true, if_false]
    split
    · exact actionPrintString_same ht hf' h' _
    · exact ⟨hf', h'⟩

theorem processString_finish (ht : Tracks E Eq) (hf : Framed s b m) (hs : Same m n) (string : List Wchar) :
    (∃ b', Framed string b' (processString E string m)) ∧
      Same (processString E string m) (finish E (string.foldl (feed E) (n, []))) := by
  let m₀ := { m with currentString := string, runOffset := 0, runSize := some 0 }
  have hf₀ : Framed string b m₀ := { hf with string := rfl }
  have h₀ : Same m₀ n := { hs with }
  obtain ⟨b', hf', h', hy⟩ := processLoop_feed ht string 0 0 b m₀ (n, []) hf₀ h₀ rfl
    (Nat.le_refl 0) (Nat.zero_le _) (by cases b <;> rfl)
  obtain ⟨hfin, hsame⟩ := finishString_finish ht hf' h' hy
  exact ⟨⟨b', hfin⟩, hsame⟩

end

/-! ## Chunks -/

section

variable {D : List Call → Reply} {inject : List Wchar → StateMachine → StateMachine}
  {E : Engine} {m n : StateMachine}

def pending (p : List Wchar) : List Call := if p.isEmpty then [] else [.printString p]

theorem joinPrints_pending (l : List Call) (p q : List Wchar) :
    joinPrints (l ++ pending p ++ [.printString q]) = joinPrints (l ++ [.printString (p ++ q)]) := by
  rw [append_assoc]
  apply joinPrints_append_right
  unfold pending
  split
  · rename_i h
    rw [isEmpty_iff.mp h]
    rfl
  · rfl

/-- They print the same since the first `k` calls. -/
structure Joined (k : Nat) (x y : StateMachine × List Wchar) : Prop where
  core : x.1.core = y.1.core
  flag : x.1.processingIndividually = y.1.processingIndividually
  idle : x.1.processingIndividually = true → x.2 = [] ∧ y.2 = []
  left : k ≤ x.1.calls.length
  right : k ≤ y.1.calls.length
  calls : Since joinPrints k (x.1.calls ++ pending x.2) (y.1.calls ++ pending y.2)
  framed : Framed x.1.currentString x.1.processingIndividually x.1

variable {k : Nat} {x y : StateMachine × List Wchar} {s : List Wchar} {c : StateMachine}

theorem Joined.print (h : Joined k x y) (q : List Wchar) :
    Since joinPrints k (x.1.calls ++ [.printString (x.2 ++ q)]) (y.1.calls ++ [.printString (y.2 ++ q)]) := by
  have hx : Since joinPrints k (x.1.calls ++ [.printString (x.2 ++ q)])
      (x.1.calls ++ (pending x.2 ++ [.printString q])) := by
    apply (Since.refl joinPrints h.left).append
    rw [← append_assoc, joinPrints_pending]
  have hy : Since joinPrints k (y.1.calls ++ (pending y.2 ++ [.printString q]))
      (y.1.calls ++ [.printString (y.2 ++ q)]) := by
    apply (Since.refl joinPrints h.right).append
    rw [← append_assoc, joinPrints_pending]
  rw [← append_assoc] at hx hy
  exact (hx.trans (h.calls.append (joinPrints_append_left h.calls.new _))).trans hy

theorem settle_joined (hE : Listens E) {s t : List Wchar} (h : Sim (Since joinPrints k) s true m n)
    (ht : Framed t true n) (wch : Wchar) :
    Joined k (settle (processCharacter E wch m), [])
      (settle (processCharacter E wch n), []) := by
  have hs := processCharacter_sim (tracks_joinPrints hE k) h wch
  have hn := processCharacter_framed (tracks_eq hE) ht wch
  have hf := hs.framed
  have hcalls := hs.calls
  rw [← append_nil (processCharacter _ wch m).calls, ← append_nil (processCharacter _ wch n).calls] at hcalls
  unfold settle
  by_cases hg : (processCharacter E wch m).state = .ground
  · rw [if_pos hg, if_pos (hs.state ▸ hg)]
    exact ⟨hs.core, rfl, fun _ => ⟨rfl, rfl⟩, hs.calls.left, hs.calls.right, hcalls, hf.of_core rfl⟩
  · rw [if_neg hg, if_neg (hs.state ▸ hg)]
    exact ⟨hs.core, by rw [hf.flag, hn.flag], fun _ => ⟨rfl, rfl⟩, hs.calls.left, hs.calls.right,
      hcalls, hf.of_core rfl⟩

theorem feed_joined (hE : Listens E) (h : Joined k x y) (wch : Wchar) : Joined k (feed E x wch) (feed E y wch) := by
  have hf := h.framed
  have hn := h.framed.of_core h.core
  by_cases hi : x.1.processingIndividually = true
  · have hi' : y.1.processingIndividually = true := h.flag ▸ hi
    rw [feed_individually hi, feed_individually hi']
    obtain ⟨hx, hy⟩ := h.idle hi
    have hcalls := h.calls
    rw [hx, hy, pending, isEmpty_nil, if_pos rfl, append_nil, append_nil] at hcalls
    rw [hi] at hf
    rw [hi'] at hn
    exact settle_joined hE ⟨h.core, hcalls, hf⟩ hn wch
  · have hi' : ¬y.1.processingIndividually = true := h.flag ▸ hi
    by_cases hact : isActionableFromGround wch = true
    · have hcalls := h.print []
      rw [append_nil, append_nil] at hcalls
      rw [feed_actionable hi hact, feed_actionable hi' hact, hE.print, hE.print]
      refine settle_joined (s := x.1.currentString) (t := y.1.currentString) hE ⟨?_, ?_, ?_⟩ ?_ wch
      · exact h.core
      · exact hcalls
      · exact { hf with flag := rfl, string := rfl }
      · exact { hn with flag := rfl, string := rfl }
    · rw [feed_text hi hact, feed_text hi' hact]
      have hne : ∀ l : List Wchar, pending (l ++ [wch]) = [.printString (l ++ [wch])] := fun l => by simp [pending]
      refine ⟨h.core, h.flag, fun h' => absurd h' hi, h.left, h.right, ?_, hf⟩
      rw [hne, hne]
      exact h.print [wch]

theorem foldl_feed_joined (hE : Listens E) (s : List Wchar) (h : Joined k x y) : Joined k (s.foldl (feed E) x)
      (s.foldl (feed E) y) := by
  induction s generalizing x y with
  | nil => exact h
  | cons wch s ih => exact ih (feed_joined hE h wch)

theorem finish_joined (hE : Listens E) (h : Joined k x y) : Joined k (finish E x, []) y := by
  unfold finish
  rw [hE.print]
  have hcalls := h.calls
  split
  · rename_i hp
    simp only [Bool.and_eq_true, Bool.not_eq_true'] at hp
    rw [pending, hp.2] at hcalls
    refine ⟨h.core, h.flag, fun hi => ?_, hcalls.left, h.right, ?_, ?_⟩
    · rw [hp.1] at hi
      exact absurd hi (by decide)
    · rw [← append_nil (_ ++ _)] at hcalls
      exact hcalls
    · exact h.framed.of_core rfl
  · rename_i hp
    have hempty : x.2 = [] := by
      by_cases hi : x.1.processingIndividually = true
      · exact (h.idle hi).1
      · simpa [hi] using hp
    rw [hempty] at hcalls
    exact { h with idle := fun hi => ⟨rfl, (h.idle hi).2⟩, calls := hcalls }

theorem Joined.trans {x y z : StateMachine × List Wchar} (h : Joined k x y) (h' : Joined k y z) : Joined k x z :=
  ⟨h.core.trans h'.core, h.flag.trans h'.flag, fun hi => ⟨(h.idle hi).1, (h'.idle (h.flag ▸ hi)).2⟩,
    h.left, h'.right, h.calls.trans h'.calls, h.framed⟩

theorem Same.joined (h : Same m n) (hk : k ≤ n.calls.length)
    (hf : Framed m.currentString m.processingIndividually m) : Joined k (m, []) (n, []) := by
  have hk' : k ≤ m.calls.length := by rw [h.calls]; exact hk
  refine ⟨h.core, h.flag, fun _ => ⟨rfl, rfl⟩, hk', hk, ?_, hf⟩
  rw [h.calls]
  exact Since.refl _ (Nat.le_trans hk (by simp))

theorem processString_joined (hE : Listens E) (string : List Wchar) (h : Joined k (m, []) y) :
    Joined k (processString E string m, [])
      (string.foldl (feed E) y) := by
  have hrun : Joined k (string.foldl (feed E) (m, []))
      (string.foldl (feed E) y) := foldl_feed_joined hE string h
  have hfin : Joined k (finish E _, []) _ := finish_joined hE hrun
  obtain ⟨⟨b, hf⟩, hsame⟩ := processString_finish (tracks_eq hE) h.framed ⟨rfl, rfl, rfl⟩ string
  exact (hsame.joined hfin.left (hf.of_core rfl)).trans hfin

theorem foldl_processString_joined (hE : Listens E) (chunks : List (List Wchar)) (h : Joined k (m, []) y) :
    Joined k (chunks.foldl (fun m chunk => processString E chunk m) m, [])
      (chunks.flatten.foldl (feed E) y) := by
  induction chunks generalizing m y with
  | nil => exact h
  | cons chunk chunks ih =>
    rw [flatten_cons, foldl_append]
    exact ih (processString_joined hE chunk h)

/-! ## Single characters -/

theorem plain_of_le {wch : Wchar} (h : 0x20 ≤ wch.toNat) (h' : ¬(0x7F ≤ wch.toNat ∧ wch.toNat ≤ 0x9F)) :
    isC0Code wch = false ∧ isC1ControlCharacter wch = false ∧ isFromAnywhereChar wch = false ∧
      isEscape wch = false ∧ isDelete wch = false := by
  simp [isC0Code, isC1ControlCharacter, isFromAnywhereChar, isEscape, isDelete]
  omega

theorem processCharacter_text (hg : m.state = .ground) {wch : Wchar} (hact : ¬isActionableFromGround wch = true) :
    processCharacter E wch m = actionPrint E wch m := by
  simp only [isActionableFromGround, isC1ControlCharacter, isDelete, Bool.or_eq_true, Bool.and_eq_true,
    decide_eq_true_eq, beq_iff_eq, not_or, not_and] at hact
  obtain ⟨hc0, hc1, hany, hesc, hdel⟩ := @plain_of_le wch (by omega) (by omega)
  simp [processCharacter, processNonC1, event, eventGround, hc1, hany, hesc, hc0, hdel, hg]

/-- A run and a machine that got the characters one at a time. -/
structure Spelled (k : Nat) (x : StateMachine × List Wchar) (c : StateMachine) : Prop where
  core : x.1.core = c.core
  idle : x.1.processingIndividually = true → x.2 = []
  ground : x.1.processingIndividually = false → x.1.state = .ground
  left : k ≤ x.1.calls.length
  calls : Since printed k (x.1.calls ++ [.printString x.2]) c.calls
  framed : Framed x.1.currentString x.1.processingIndividually x.1

theorem since_nothing {a : List Call} (h : k ≤ a.length) : Since printed k (a ++ [.printString []]) a := by
  have := (Since.refl printed h).append (c := [.printString []]) (d := []) (by simp [printed, printText])
  rwa [append_nil] at this

theorem settle_spelled (hE : Listens E) (h : Sim (Since printed k) s true m n) (wch : Wchar) :
    Spelled k (settle (processCharacter E wch m), [])
      (processCharacter E wch n) := by
  have hs := processCharacter_sim (tracks_printed hE k) h wch
  have hf := hs.framed
  unfold settle
  by_cases hg : (processCharacter E wch m).state = .ground
  · rw [if_pos hg]
    exact ⟨hs.core, fun _ => rfl, fun _ => hg, hs.calls.left, (since_nothing hs.calls.left).trans
      hs.calls, hf.of_core rfl⟩
  · rw [if_neg hg]
    refine ⟨hs.core, fun _ => rfl, fun hi => ?_, hs.calls.left, (since_nothing hs.calls.left).trans
      hs.calls, hf.of_core rfl⟩
    rw [hf.flag] at hi
    exact absurd hi (by decide)

theorem feed_spelled (hE : Listens E) (h : Spelled k x c) (wch : Wchar) :
    Spelled k (feed E x wch) (processCharacter E wch c) := by
  have hf := h.framed
  by_cases hi : x.1.processingIndividually = true
  · rw [feed_individually hi]
    have hcalls := h.calls
    rw [h.idle hi] at hcalls
    rw [hi] at hf
    exact settle_spelled hE ⟨h.core, (since_nothing h.left).symm.trans hcalls, hf⟩ wch
  · by_cases hact : isActionableFromGround wch = true
    · rw [feed_actionable hi hact, hE.print]
      refine settle_spelled (s := x.1.currentString) hE ⟨?_, ?_, ?_⟩ wch
      · exact h.core
      · exact h.calls
      · exact { hf with flag := rfl, string := rfl }
    · have hg : x.1.state = .ground := h.ground (by simpa using hi)
      have hcg : c.state = .ground := (congrArg (·.state) h.core).symm.trans hg
      rw [feed_text hi hact, processCharacter_text hcg hact, hE.printOne]
      refine ⟨h.core, fun h' => absurd h' hi, fun _ => hg, h.left, ?_, hf⟩
      have hone : printed [.printString (x.2 ++ [wch])] = printed ([.printString x.2] ++ [.print wch]) := by
        simp [printed, printText]
      have hsplit : Since printed k (x.1.calls ++ [.printString (x.2 ++ [wch])])
          (x.1.calls ++ ([.printString x.2] ++ [.print wch])) :=
        (Since.refl printed h.left).append (by rw [printed_append, hone, ← printed_append])
      rw [← append_assoc] at hsplit
      exact hsplit.trans (h.calls.append (by rw [printed_append, printed_append, h.calls.new]))

theorem foldl_feed_spelled (hE : Listens E) (s : List Wchar) (h : Spelled k x c) : Spelled k (s.foldl (feed E) x)
      (s.foldl (fun c wch => processCharacter E wch c) c) := by
  induction s generalizing x c with
  | nil => exact h
  | cons wch s ih => exact ih (feed_spelled hE h wch)

theorem finish_spelled (hE : Listens E) (h : Spelled k x c) : Spelled k (finish E x, []) c := by
  have hf := h.framed
  unfold finish
  rw [hE.print]
  split
  · exact ⟨h.core, fun _ => rfl, h.ground, h.calls.left, (since_nothing h.calls.left).trans h.calls, hf.of_core rfl⟩
  · rename_i hp
    refine ⟨h.core, fun _ => rfl, h.ground, h.left, ?_, hf⟩
    have hempty : x.2 = [] := by
      by_cases hi : x.1.processingIndividually = true
      · exact h.idle hi
      · simpa [hi] using hp
    rw [← hempty]
    exact h.calls

theorem processString_spelled (hE : Listens E) (string : List Wchar) (h : Spelled k (m, []) c) :
    Spelled k (processString E string m, [])
      (string.foldl (fun c wch => processCharacter E wch c) c) := by
  have hrun : Spelled k (string.foldl (feed E) (m, []))
      (string.foldl (fun c wch => processCharacter E wch c) c) :=
    foldl_feed_spelled hE string h
  have hfin : Spelled k (finish E _, []) _ := finish_spelled hE hrun
  obtain ⟨⟨b, hf⟩, hs⟩ := processString_finish (tracks_eq hE) h.framed ⟨rfl, rfl, rfl⟩ string
  refine ⟨hs.core.trans hfin.core, fun _ => rfl, fun hi => ?_, hs.calls ▸ hfin.left, ?_, hf.of_core rfl⟩
  · exact (congrArg (·.state) hs.core).trans (hfin.ground (hs.flag ▸ hi))
  · rw [hs.calls]
    exact hfin.calls

/-! ## Reachable machines -/

/-- `direct`: characters went straight to `ProcessCharacter`. -/
inductive Reachable (E : Engine) (direct : Bool) : StateMachine → Prop
  | new : Reachable E direct (new E false)
  | processString {m : StateMachine} (h : Reachable E direct m) (string : List Wchar) :
      Reachable E direct (processString E string m)
  | processCharacter {m : StateMachine} (h : Reachable E direct m) (hd : direct = true) (wch : Wchar) :
      Reachable E direct (processCharacter E wch m)
  | resetState {m : StateMachine} (h : Reachable E direct m) : Reachable E direct (resetState m)
  | setParserMode {m : StateMachine} (h : Reachable E direct m) (mode : Mode) (enabled : Bool) :
      Reachable E direct (setParserMode mode enabled m)
  | flushToTerminal {m : StateMachine} (h : Reachable E direct m) : Reachable E direct (flushToTerminal E m).2

theorem call_framed (ht : Tracks E Eq) {b : Bool} (hf : Framed s b m) (c : Call) :
    Framed s b (call E c m).2 := (call_sim ht ⟨rfl, rfl, hf⟩ c).framed

theorem framed_rule (ht : Tracks E Eq) {b : Bool} : FlushRule E (fun _ => True) (Framed s b) where
  call _ hf := call_framed ht hf _
  uncached hf := { hf with }
  passes _ := trivial

theorem Reachable.framed (ht : Tracks E Eq) {direct : Bool} (h : Reachable E direct m) :
    Framed m.currentString m.processingIndividually m := by
  induction h with
  | new =>
    have hnew : Framed [] false { isEngineForInput := false } := ⟨by simp, rfl, rfl, rfl, rfl⟩
    exact (actionClear_sim ht ⟨rfl, rfl, hnew⟩ .ground).framed.of_core rfl
  | processString _ string ih =>
    obtain ⟨⟨b, hf⟩, -⟩ := processString_finish ht ih ⟨rfl, rfl, rfl⟩ string
    exact hf.of_core rfl
  | processCharacter _ _ wch ih => exact (processCharacter_framed ht ih wch).of_core rfl
  | resetState _ ih => exact { ih with string := rfl, flag := rfl }
  | setParserMode _ _ _ ih => exact { ih with string := rfl, flag := rfl }
  | flushToTerminal _ ih => exact ((framed_rule ht).flushToTerminal ih).of_core rfl

theorem Reachable.ground (hE : Listens E) (h : Reachable E false m)
    (hi : m.processingIndividually = false) : m.state = .ground := by
  have ht := tracks_eq hE
  induction h with
  | new => simp [StateMachine.new, actionClear, notify, call, hE.flushes]
  | @processString m h string ih =>
    have hsp : Spelled 0 (m, []) m := ⟨rfl, fun _ => rfl, ih, Nat.zero_le _, since_nothing (Nat.zero_le _), h.framed ht⟩
    exact (processString_spelled hE string hsp).ground hi
  | processCharacter _ hd => exact absurd hd (by decide)
  | resetState => rfl
  | setParserMode _ _ _ ih => exact ih hi
  | flushToTerminal h ih =>
    rw [flushToTerminal_untouched.state]
    apply ih
    rw [← hi, flushToTerminal_untouched.flag]

def callsSince (old m : StateMachine) : List Call := m.calls.drop old.calls.length

theorem chunks_joined (hE : Listens E) {direct : Bool} (hm : Reachable E direct m) (chunks : List (List Wchar)) :
    joinPrints (callsSince m (chunks.foldl (fun m chunk => processString E chunk m) m)) =
        joinPrints (callsSince m (processString E chunks.flatten m)) ∧
      (chunks.foldl (fun m chunk => processString E chunk m) m).core = (processString E chunks.flatten m).core := by
  have hself : Joined m.calls.length (m, []) (m, []) :=
    Same.joined ⟨rfl, rfl, rfl⟩ (Nat.le_refl _) (hm.framed (tracks_eq hE))
  have hchunks : Joined m.calls.length
      (chunks.foldl (fun m chunk => processString E chunk m) m, []) _ :=
    foldl_processString_joined hE chunks hself
  have honce : Joined m.calls.length (processString E chunks.flatten m, []) _ :=
    processString_joined hE chunks.flatten hself
  have hnew := (hchunks.calls.trans honce.calls.symm).new
  simp only [pending, isEmpty_nil, if_true, append_nil] at hnew
  exact ⟨hnew, hchunks.core.trans honce.core.symm⟩

theorem string_spelled (hE : Listens E) (hm : Reachable E false m) (string : List Wchar) :
    printed (callsSince m (processString E string m)) = printed (callsSince m
          (string.foldl (fun m wch => processCharacter E wch m) m)) ∧
      (processString E string m).core = (string.foldl (fun m wch => processCharacter E wch m) m).core := by
  have hself : Spelled m.calls.length (m, []) m :=
    ⟨rfl, fun _ => rfl, hm.ground hE, Nat.le_refl _, since_nothing (Nat.le_refl _), hm.framed (tracks_eq hE)⟩
  have honce : Spelled m.calls.length
      (processString E string m, []) _ := processString_spelled hE string hself
  exact ⟨((since_nothing honce.left).symm.trans honce.calls).new, honce.core⟩

/-- Chunks make the calls of one string, up to how prints are cut; so do single characters. -/
theorem processString_chunks (hD : Quiet D) {direct : Bool}
    (hm : Reachable (outputEngine false D inject) direct m) (chunks : List (List Wchar)) :
    let E := outputEngine false D inject
    let inChunks := chunks.foldl (fun m chunk => processString E chunk m) m
    let atOnce := processString E chunks.flatten m
    let byCharacter := chunks.flatten.foldl (fun m wch => processCharacter E wch m) m
    (joinPrints (callsSince m inChunks) = joinPrints (callsSince m atOnce) ∧
      inChunks.core = atOnce.core) ∧ (direct = false →
        printed (callsSince m atOnce) = printed (callsSince m byCharacter) ∧ atOnce.core = byCharacter.core) := by
  refine ⟨chunks_joined (listens_outputEngine hD) hm chunks, ?_⟩
  intro hd
  subst hd
  exact string_spelled (listens_outputEngine hD) hm chunks.flatten

end

def acceptAll : List Call → Reply := fun _ => {}

theorem quiet_acceptAll : Quiet acceptAll where
  blind _ _ _ := rfl
  handler _ k hk := by simpa [acceptAll] using hk.symm
  macroText _ := rfl

theorem processString_chunks_sgr :
    let E := outputEngine false acceptAll (fun _ m => m)
    let m := new E false
    let chunks : List (List Wchar) := [[0x61, ESC], [0x5B, 0x31], [0x6D, 0x62]]
    Reachable E false m ∧ joinPrints (callsSince m (chunks.foldl (fun m chunk => processString E chunk m) m)) =
        joinPrints (callsSince m (processString E chunks.flatten m)) ∧
      printed (callsSince m (processString E chunks.flatten m)) =
        printed (callsSince m (chunks.flatten.foldl (fun m wch => processCharacter E wch m) m)) := by
  intro E m chunks
  have hm : Reachable E false m := .new
  have h := processString_chunks quiet_acceptAll hm chunks
  exact ⟨hm, h.1.1, (h.2 rfl).1⟩

/-- A string prints nothing before a control, and does not know of a sequence begun by a character. -/
theorem processString_ne_processCharacter :
    let E := outputEngine false acceptAll (fun _ m => m)
    let m := new E false
    let escaped := processCharacter E ESC m
    joinPrints (callsSince m (processString E [0x0A] m)) = [.printString [], .execute 0x0A] ∧
      joinPrints (callsSince m (processCharacter E 0x0A m)) = [.execute 0x0A] ∧
      callsSince escaped (processString E [0x63] escaped) = [.printString [0x63]] ∧
      (processString E [0x63] escaped).state = .escape ∧
      callsSince escaped (processCharacter E 0x63 escaped) = [.escDispatch (VTID.fromString ['c'])] ∧
      (processCharacter E 0x63 escaped).state = .ground := by
  decide

end Terminal.Parser
