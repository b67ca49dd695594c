import LineCalc.Proofs.Reports

/-!
# The command of the command line

With `-c` the program evaluates one text. The text is an argument itself, and one that starts with a
dash may be taken for an option, so not every text gets to be evaluated.

* `CommandLine.looksLikeOption`: names that are an option or short for one.
* `CommandLine.isText`: arguments that can be a text.
* `CommandLine.classify_of_isText`, `CommandLine.classify_of_not_isText`: these are the ones that
  are taken as such.
* `CommandLine.run_command`: a text is evaluated if it can be one, and else the arguments are
  refused.
-/

namespace LineCalc.CommandLine

/-! ### Arguments that can be a text -/

/-- The characters before the first equals sign. -/
def optionName (chars : List Char) : List Char := chars.takeWhile (· != '=')

/-- With two dashes the beginning of an option looks like one, with one dash its letter does,
whatever follows it. -/
def looksLikeOption (name : List Char) : Bool :=
  match name with
  | '-' :: '-' :: _ => Switch.table.any fun entry => name.isPrefixOf entry.1.toList
  | '-' :: letter :: _ => (Switch.ofSpelling? (String.ofList ['-', letter])).isSome
  | _ => false

/-- An argument that starts with a dash can be a text only if that is all of it, or if it does not
look like an option and is a negative number or holds a space. -/
def isText (arg : String) : Bool :=
  arg.toList.head? != some '-' || arg == "-" ||
    (!looksLikeOption (optionName arg.toList) &&
      (isNegativeNumber arg.toList || arg.toList.contains ' '))

/-- An option is told from its value by the first equals sign. -/
theorem splitAtEquals_eq (chars : List Char) :
    ∃ value, splitAtEquals chars = (String.ofList (optionName chars), value) := by
  unfold splitAtEquals optionName
  split
  · rename_i h
    have happend := @List.takeWhile_append_dropWhile _ (· != '=') chars
    rw [h, List.append_nil] at happend
    exact ⟨none, by rw [happend]⟩
  · exact ⟨_, rfl⟩

/-- Only the spellings in the table are those of an option. -/
theorem exists_entry_of_spelling {text : String} {switch : Switch}
    (h : Switch.ofSpelling? text = some switch) : ∃ entry ∈ Switch.table, text = entry.1 := by
  have hsome : (Switch.table.lookup text).isSome = true := by
    rw [Switch.ofSpelling?] at h
    rw [h]
    rfl
  obtain ⟨entry, hmem, heq⟩ := List.lookup_isSome_iff.1 hsome
  exact ⟨entry, hmem, beq_iff_eq.1 heq⟩

/-- Every option looks like one, and no part of it is taken for a value. -/
theorem looksLikeOption_of_spelling {text : String} {switch : Switch}
    (h : Switch.ofSpelling? text = some switch) :
    looksLikeOption text.toList = true ∧ optionName text.toList = text.toList := by
  have htable : ∀ entry ∈ Switch.table, looksLikeOption entry.1.toList = true ∧
      optionName entry.1.toList = entry.1.toList := by decide
  obtain ⟨entry, hmem, rfl⟩ := exists_entry_of_spelling h
  exact htable entry hmem

section Dash

variable {arg : String} {second : Char} {rest : List Char}

/-- An argument with a dash whose name is an option is that option. -/
theorem classify_of_spelling (harg : arg.toList = '-' :: second :: rest) {switch : Switch}
    (hname : Switch.ofSpelling? (String.ofList (optionName arg.toList)) = some switch) :
    ∃ switch' short value, classify arg = .ok (.option switch' short value) := by
  rw [harg] at hname
  obtain ⟨value, hsplit⟩ := splitAtEquals_eq ('-' :: second :: rest)
  -- The whole argument is looked up before the part in front of the equals sign.
  cases hfull : Switch.ofSpelling? arg with
  | some other => exact ⟨other, isShort arg, none, by simp only [classify, harg, hfull]⟩
  | none =>
    have hclassify : classify arg = .ok (.option switch
        (isShort (String.ofList (optionName ('-' :: second :: rest)))) value) := by
      simp only [classify, harg, hsplit, hname, hfull]
    exact ⟨_, _, _, hclassify⟩

/-- Any other argument with a dash is looked at by the number of its dashes. -/
theorem classify_of_not_spelling (harg : arg.toList = '-' :: second :: rest)
    (hname : Switch.ofSpelling? (String.ofList (optionName arg.toList)) = none) :
    classify arg = if second = '-' then classifyLong arg else .ok (classifyShort arg) := by
  have hfull : Switch.ofSpelling? arg = none := by
    refine Option.eq_none_iff_forall_ne_some.2 fun switch h => ?_
    rw [(looksLikeOption_of_spelling h).2, String.ofList_toList, h] at hname
    cases hname
  rw [harg] at hname
  obtain ⟨value, hsplit⟩ := splitAtEquals_eq ('-' :: second :: rest)
  simp only [classify, harg, hsplit, hname, hfull]

/-- With two dashes, what does not look like an option is short for none. -/
theorem abbreviated_eq_nil_iff (harg : arg.toList = '-' :: '-' :: rest) :
    Switch.abbreviated (String.ofList (optionName arg.toList)) = [] ↔
      looksLikeOption (optionName arg.toList) = false := by
  have hname : optionName arg.toList = '-' :: '-' :: optionName rest := by
    rw [harg]
    rfl
  rw [hname, Switch.abbreviated, List.filter_eq_nil_iff, looksLikeOption, List.any_eq_false,
    String.toList_ofList]

/-- With one dash, what looks like an option starts with the letter of one. -/
theorem looksLikeOption_short (harg : arg.toList = '-' :: second :: rest) (hsecond : second ≠ '-') :
    looksLikeOption (optionName arg.toList) =
      (Switch.ofSpelling? (String.ofList (arg.toList.take 2))).isSome := by
  rw [harg]
  -- An equals sign right after the dash leaves no letter in the name, and it is none of an option.
  by_cases hequals : second = '='
  · subst hequals
    rfl
  · have hname : optionName ('-' :: second :: rest) = '-' :: second :: optionName rest := by
      simp [optionName, hequals]
    rw [hname, looksLikeOption]
    · rfl
    · exact hsecond

/-- What starts with a dash and looks like an option is no text. -/
theorem classify_of_looksLikeOption (harg : arg.toList = '-' :: second :: rest)
    (hlooks : looksLikeOption (optionName arg.toList) = true) (other : String) :
    classify arg ≠ .ok (.plain other) := by
  intro hplain
  cases hname : Switch.ofSpelling? (String.ofList (optionName arg.toList)) with
  | some switch =>
    obtain ⟨switch', short, value, hoption⟩ := classify_of_spelling harg hname
    cases hoption.symm.trans hplain
  | none =>
    rw [classify_of_not_spelling harg hname] at hplain
    by_cases hsecond : second = '-'
    · subst hsecond
      have hnil := mt (abbreviated_eq_nil_iff harg).1 (by simp [hlooks])
      obtain ⟨value, hsplit⟩ := splitAtEquals_eq arg.toList
      rw [if_pos rfl, classifyLong, hsplit] at hplain
      dsimp only at hplain
      split at hplain
      · contradiction
      · cases hplain
      · cases hplain
    · rw [looksLikeOption_short harg hsecond] at hlooks
      obtain ⟨switch, hswitch⟩ := Option.isSome_iff_exists.1 hlooks
      rw [if_neg hsecond, classifyShort, hswitch] at hplain
      cases hplain

/-- What starts with a dash and does not look like an option is none. -/
theorem classify_of_not_looksLikeOption (harg : arg.toList = '-' :: second :: rest)
    (hlooks : looksLikeOption (optionName arg.toList) = false) :
    classify arg = .ok (classifyOther arg) := by
  have hname : Switch.ofSpelling? (String.ofList (optionName arg.toList)) = none := by
    refine Option.eq_none_iff_forall_ne_some.2 fun switch h => ?_
    have htrue := (looksLikeOption_of_spelling h).1
    rw [String.toList_ofList, hlooks] at htrue
    cases htrue
  rw [classify_of_not_spelling harg hname]
  by_cases hsecond : second = '-'
  · subst hsecond
    obtain ⟨value, hsplit⟩ := splitAtEquals_eq arg.toList
    rw [if_pos rfl, classifyLong, hsplit]
    simp only [(abbreviated_eq_nil_iff harg).2 hlooks]
  · rw [looksLikeOption_short harg hsecond] at hlooks
    have hletter := Option.isNone_iff_eq_none.1 (Option.isSome_eq_false_iff.1 hlooks)
    rw [if_neg hsecond, classifyShort, hletter]

end Dash

/-- Without a dash before another character, an argument is a text; with one, that depends on the
rest of it. -/
theorem isText_or_dash (arg : String) :
    (isText arg = true ∧ classify arg = .ok (.plain arg)) ∨
      ∃ second rest, arg.toList = '-' :: second :: rest ∧
        isText arg = (!looksLikeOption (optionName arg.toList) &&
          (isNegativeNumber arg.toList || arg.toList.contains ' ')) := by
  by_cases hdash : ∃ second rest, arg.toList = '-' :: second :: rest
  · obtain ⟨second, rest, harg⟩ := hdash
    have hne : (arg == "-") = false := by
      refine beq_eq_false_iff_ne.2 ?_
      rintro rfl
      cases harg
    have hhead : (arg.toList.head? != some '-') = false := by
      rw [harg]
      rfl
    exact .inr ⟨second, rest, harg, by rw [isText, hne, hhead]; rfl⟩
  · refine .inl ⟨?_, ?_⟩
    · -- A dash that nothing follows is the whole of the argument.
      have halone : arg.toList.head? = some '-' → arg = "-" := by
        intro hhead
        obtain ⟨rest, harg⟩ := List.head?_eq_some_iff.1 hhead
        cases rest with
        | nil => exact String.toList_inj.1 harg
        | cons second rest => exact absurd ⟨second, rest, harg⟩ hdash
      by_cases hhead : arg.toList.head? = some '-'
      · rw [halone hhead]
        rfl
      · simp [isText, hhead]
    · rw [classify]
      split
      · exact absurd ⟨_, _, ‹_›⟩ hdash
      · rfl

/-- An argument that can be a text is taken as one. -/
theorem classify_of_isText {arg : String} (h : isText arg = true) :
    classify arg = .ok (.plain arg) := by
  rcases isText_or_dash arg with ⟨-, hplain⟩ | ⟨second, rest, harg, htext⟩
  · exact hplain
  · rw [htext, Bool.and_eq_true, Bool.not_eq_true'] at h
    rw [classify_of_not_looksLikeOption harg h.1, classifyOther, if_pos h.2]

/-- Any other argument is not. -/
theorem classify_of_not_isText {arg : String} (h : isText arg = false) (other : String) :
    classify arg ≠ .ok (.plain other) := by
  rcases isText_or_dash arg with ⟨htext, -⟩ | ⟨second, rest, harg, htext⟩
  · rw [h] at htext
    cases htext
  · cases hlooks : looksLikeOption (optionName arg.toList) with
    | true => exact classify_of_looksLikeOption harg hlooks other
    | false =>
      rw [h, hlooks, Bool.not_false, Bool.true_and] at htext
      rw [classify_of_not_looksLikeOption harg hlooks, classifyOther, ← htext]
      simp

/-! ### Evaluating a text -/

/-- The arguments that ask for a text to be evaluated. -/
def commandArgs (jit : Bool) (text : String) : List String :=
  (if jit then ["--jit"] else []) ++ ["-c", text]

/-- The backend that they ask for. -/
def commandBackend (jit : Bool) : Backend := if jit then .native else .interpreter

/-- The options before the text are read first. -/
theorem request_commandArgs (jit : Bool) (text : String) :
    request (commandArgs jit text) = (do
      let args ← classifyAll [text]
      read (.option .command true none :: args) { jit } []) := by
  have hjit : classify "--jit" = .ok (.option .jit false none) := by rfl
  have hcommand : classify "-c" = .ok (.option .command true none) := by rfl
  have hargs : classifyAll ["-c", text] = (do
      let args ← classifyAll [text]
      return .option .command true none :: args) := by
    rw [classifyAll, if_neg (by decide), hcommand]
    rfl
  cases jit with
  | false =>
    rw [request, show commandArgs false text = ["-c", text] from rfl, hargs]
    cases classifyAll [text] <;> rfl
  | true =>
    rw [request, show commandArgs true text = ["--jit", "-c", text] from rfl, classifyAll,
      if_neg (by decide), hjit, hargs]
    cases classifyAll [text] <;> rfl

/-- A text that can be one is what is to be evaluated. -/
theorem request_of_isText (jit : Bool) {text : String} (h : isText text = true) :
    request (commandArgs jit text) = .ok (.run { command := some text, jit }) := by
  have hne : text ≠ "--" := by
    rintro rfl
    revert h
    decide
  rw [request_commandArgs, classifyAll, if_neg hne, classify_of_isText h]
  rfl

/-- With any other text the arguments are refused. -/
theorem request_of_not_isText (jit : Bool) {text : String} (h : isText text = false) :
    ∃ e, request (commandArgs jit text) = .error e := by
  rw [request_commandArgs, classifyAll]
  -- Two dashes alone end the options, so that no value is left.
  by_cases hseparator : text = "--"
  · rw [if_pos hseparator]
    exact ⟨.expectedArgument, rfl⟩
  · rw [if_neg hseparator]
    cases harg : classify text with
    | error e => exact ⟨e, rfl⟩
    | ok arg =>
      -- An option and what only looks like one are no value for an option.
      cases arg with
      | plain other => exact absurd harg (classify_of_not_isText h other)
      | option switch short value => exact ⟨.expectedArgument, rfl⟩
      | unknown other => exact ⟨.expectedArgument, rfl⟩

/-- A text without too long a run of digits is evaluated if it can be a text at all: the program
shows what the line wrote and ends well if it has a value, and else shows its error too and ends
badly. With any other text the arguments are refused and nothing is evaluated. -/
theorem run_command [Platform] (jit : Bool) (input : String) {text : String}
    (hfit : DigitRunsFit text) :
    (isText text = true →
      (∃ v, (runLine text {} (commandBackend jit)).outcome = .ok v ∧
        (run (commandArgs jit text) input).outcome = .ok 0 ∧
        (run (commandArgs jit text) input).stdout =
          (runLine text {} (commandBackend jit)).stdout) ∨
      ∃ e : LineError, (runLine text {} (commandBackend jit)).outcome = .error (.error e) ∧
        (run (commandArgs jit text) input).outcome = .ok 1 ∧
        (run (commandArgs jit text) input).stdout =
          (runLine text {} (commandBackend jit)).stdout ++ e.report.text ++ "\n") ∧
      (isText text = false → (run (commandArgs jit text) input).outcome = .ok 2 ∧
        (run (commandArgs jit text) input).stdout = "") := by
  refine ⟨fun htext => ?_, fun htext => ?_⟩
  · have hrun : run (commandArgs jit text) input = evaluate text {} (commandBackend jit) := by
      rw [run, runWith, request_of_isText jit htext]
      rfl
    rw [hrun]
    rcases @runLine_reported_or_overlong _ {} rfl text (commandBackend jit) with
      (⟨v, hok⟩ | ⟨e, herror, -⟩) | ⟨digits, hinfix, hlong, -⟩
    · obtain ⟨hstdout, houtcome⟩ := evaluate_of_ok hok
      exact .inl ⟨v, hok, houtcome, hstdout⟩
    · obtain ⟨hstdout, houtcome⟩ := evaluate_of_error herror
      refine .inr ⟨e, herror, houtcome, ?_⟩
      rw [hstdout, errorLine, String.append_assoc]
    · exact absurd hlong (hfit digits hinfix)
  · obtain ⟨e, herror⟩ := request_of_not_isText jit htext
    rw [run, runWith, herror]
    exact ⟨rfl, rfl⟩

open scoped Platform in
/-- A quotient that starts with a dash is evaluated if there is a space in it. -/
theorem run_command_spaced :
    DigitRunsFit "-1 /0" ∧ isText "-1 /0" = true ∧
      (run ["--jit", "-c", "-1 /0"] "").outcome = .ok 1 ∧
      (run ["--jit", "-c", "-1 /0"] "").stdout = "InterpreterError: division by zero\n" := by
  have hfit : DigitRunsFit "-1 /0" := digitRunsFit_of_length_le (by decide)
  have htext : isText "-1 /0" = true := by decide
  have hline : (runLine "-1 /0" {} .native).outcome =
      .error (.error (.arithmetic ⟨.divisionByZero, none⟩)) := by decide +kernel
  refine ⟨hfit, htext, ?_⟩
  rcases (run_command true "" hfit).1 htext with ⟨v, hok, -⟩ | ⟨e, herror, houtcome, hstdout⟩
  · cases hline.symm.trans hok
  · cases hline.symm.trans herror
    exact ⟨houtcome, hstdout.trans (by decide +kernel)⟩

open scoped Platform in
/-- A sum that starts with a dash has a value, but without a space in it the arguments are
refused. -/
theorem signed_sum_refused :
    DigitRunsFit "-1+2" ∧ (runLine "-1+2" {} .interpreter).outcome = .ok 1 ∧
      (run ["-c", "-1+2"] "").outcome = .ok 2 ∧
      (run ["-c", "-1+2"] "").stderr =
        usage ++ "pcalc: error: argument -c: expected one argument\n" := by
  exact ⟨digitRunsFit_of_length_le (by decide), by decide +kernel, by decide +kernel,
    by decide +kernel⟩

end LineCalc.CommandLine
