import Terminal.Host.CookedRead

/-!
# Aliases of a command line (`Alias`)

The first word of a line may stand for a text with macros. The table is what is found in it: the
aliases of an exe, and the target of an alias.
-/

namespace Terminal.Host

open Terminal.Parser (Wchar)

abbrev AliasData := List Wchar → Option (List Wchar → Option (List Wchar))

namespace Alias

/-! ## The table -/

/-- Two names are the same key, and the lower case of a character. -/
structure NameCase where
  same : List Wchar → List Wchar → Bool
  towlower : Wchar → Wchar

/-- `aliases[exeName] = exeList` -/
def put (names : NameCase) (exeName : List Wchar) (exeList : List Wchar → Option (List Wchar)) (aliases : AliasData) :
    AliasData :=
  fun exe => if names.same exe exeName then some exeList else aliases exe

/-- An empty target erases the alias. An alias without a name is refused. -/
def addConsoleAliasW (names : NameCase) (source target exeName : List Wchar) (aliases : AliasData) : AliasData :=
  let exeName := exeName.map names.towlower
  let exeList := aliases exeName
  if source = [] ∨ (target = [] ∧ exeList = none) then aliases
  else
    aliases |> put names exeName fun name =>
      if names.same name (source.map names.towlower) then (if target = [] then none else some target)
      else exeList.bind (· name)

def cmdExe : List Wchar := [0x63, 0x6D, 0x64, 0x2E, 0x65, 0x78, 0x65]

def clearCmdExeAliases (names : NameCase) (aliases : AliasData) : AliasData :=
  if (aliases cmdExe).isSome then aliases |> put names cmdExe fun _ => none else aliases

inductive TableCall where
  | addConsoleAliasW (source target exeName : List Wchar)
  | clearCmdExeAliases

def TableCall.apply (names : NameCase) (aliases : AliasData) : TableCall → AliasData
  | addConsoleAliasW source target exeName => Alias.addConsoleAliasW names source target exeName aliases
  | clearCmdExeAliases => Alias.clearCmdExeAliases names aliases

def tableOf (names : NameCase) (calls : List TableCall) : AliasData := calls.foldl (TableCall.apply names) fun _ => none

/-- No target is empty. -/
def HasTargets (aliases : AliasData) : Prop := ∀ exe exeList name, aliases exe = some exeList → exeList name ≠ some []

theorem HasTargets.put {names : NameCase} {exeName : List Wchar} {exeList : List Wchar → Option (List Wchar)}
    {aliases : AliasData} (h : HasTargets aliases) (hlist : ∀ name, exeList name ≠ some []) :
    HasTargets (put names exeName exeList aliases) := by
  intro exe exeList' name hfound
  unfold Alias.put at hfound
  split_ifs at hfound
  · obtain rfl := Option.some.inj hfound
    exact hlist name
  · exact h exe exeList' name hfound

theorem HasTargets.apply {aliases : AliasData} (h : HasTargets aliases) (names : NameCase) (call : TableCall) :
    HasTargets (call.apply names aliases) := by
  cases call with
  | addConsoleAliasW source target exeName =>
    dsimp only [TableCall.apply, addConsoleAliasW]
    by_cases hrefused : source = [] ∨ target = [] ∧ aliases (exeName.map names.towlower) = none
    · rwa [if_pos hrefused]
    · rw [if_neg hrefused]
      refine h.put fun name => ?_
      split_ifs with hsame hempty
      · simp
      · simpa using hempty
      · cases hfound : aliases (exeName.map names.towlower) with
        | none => simp
        | some exeList => exact h _ exeList name hfound
  | clearCmdExeAliases =>
    dsimp only [TableCall.apply, clearCmdExeAliases]
    split_ifs
    · exact h.put fun _ => by simp
    · exact h

theorem hasTargets_tableOf (names : NameCase) (calls : List TableCall) : HasTargets (tableOf names calls) := by
  apply List.foldlRecOn calls (motive := HasTargets)
  · intro exe exeList name hfound
    simp at hfound
  · intro aliases h call _
    exact h.apply names call

def DOLLAR : Wchar := 0x24

def ASTERISK : Wchar := 0x2A

/-- Everything from the last carriage return on is cut off. -/
def trimTrailingCrLf (str : List Wchar) : List Wchar :=
  if str.contains CARRIAGERETURN then ((str.reverse.dropWhile (· != CARRIAGERETURN)).drop 1).reverse else str

def tokenize (str : List Wchar) : List (List Wchar) := str.splitOn SPACE

def getArgString (str : List Wchar) : List Wchar := (str.dropWhile (· != SPACE)).drop 1

/-! ## Macros -/

def tryReplaceNumberedArgMacro (ch : Wchar) (tokens : List (List Wchar)) : Option (List Wchar) :=
  if 0x31 ≤ ch.toNat ∧ ch.toNat ≤ 0x39 then some (tokens[ch.toNat - 0x30]?.getD []) else none

def tryReplaceWildcardArgMacro (ch : Wchar) (fullArgString : List Wchar) : Option (List Wchar) :=
  if ch = ASTERISK then some fullArgString else none

def tryReplaceLetter (towupper : Wchar → Wchar) (letter : Wchar) (text : List Wchar) (ch : Wchar) :
    Option (List Wchar) :=
  if towupper ch = letter then some text else none

section Letters

variable (towupper : Wchar → Wchar)

def tryReplaceInputRedirMacro : Wchar → Option (List Wchar) := tryReplaceLetter towupper 0x4C [0x3C]

def tryReplaceOutputRedirMacro : Wchar → Option (List Wchar) := tryReplaceLetter towupper 0x47 [0x3E]

def tryReplacePipeRedirMacro : Wchar → Option (List Wchar) := tryReplaceLetter towupper 0x42 [0x7C]

def tryReplaceNextCommandMacro : Wchar → Option (List Wchar) :=
  tryReplaceLetter towupper 0x54 [CARRIAGERETURN, LINEFEED]

def replaceMacro (tokens : List (List Wchar)) (fullArgString : List Wchar) (ch : Wchar) : List Wchar × Nat :=
  let replaced := tryReplaceNumberedArgMacro ch tokens <|> tryReplaceWildcardArgMacro ch fullArgString <|>
    tryReplaceInputRedirMacro towupper ch <|> tryReplaceOutputRedirMacro towupper ch <|>
    tryReplacePipeRedirMacro towupper ch
  match replaced with
  | some text => (text, 0)
  | none =>
    match tryReplaceNextCommandMacro towupper ch with
    | some text => (text, 1)
    | none => ([DOLLAR, ch], 0)

def replaceEach (tokens : List (List Wchar)) (fullArgString : List Wchar) : List Wchar → List Wchar × Nat
  | [] => ([], 0)
  | [ch] => ([ch], 0)
  | ch :: next :: rest =>
    if ch = DOLLAR then
      let macroText := replaceMacro towupper tokens fullArgString next
      let replaced := replaceEach tokens fullArgString rest
      (macroText.1 ++ replaced.1, macroText.2 + replaced.2)
    else
      let replaced := replaceEach tokens fullArgString (next :: rest)
      (ch :: replaced.1, replaced.2)

def replaceMacros (str : List Wchar) (tokens : List (List Wchar)) (fullArgString : List Wchar) : List Wchar × Nat :=
  let replaced := replaceEach towupper tokens fullArgString str
  (replaced.1 ++ [CARRIAGERETURN, LINEFEED], replaced.2 + 1)

/-! ## The line -/

def matchAndCopyAlias (aliases : AliasData) (sourceText exeName : List Wchar) : Option (List Wchar × Nat) :=
  let sourceCopy := trimTrailingCrLf sourceText
  let tokens := tokenize sourceCopy
  match (aliases exeName).bind fun exeList => exeList (tokens.headD []) with
  | none | some [] => none
  | some target => some (replaceMacros towupper target tokens (getArgString sourceCopy))

theorem linefeed_mem_of_matchAndCopyAlias {towupper : Wchar → Wchar} {aliases : AliasData}
    {sourceText exeName : List Wchar} {expansion : List Wchar × Nat}
    (h : matchAndCopyAlias towupper aliases sourceText exeName = some expansion) : LINEFEED ∈ expansion.1 := by
  unfold matchAndCopyAlias at h
  dsimp only at h
  split at h
  · simp at h
  · simp at h
  · obtain rfl := Option.some.inj h
    simp [replaceMacros]

end Letters

end Alias

end Terminal.Host
