import Mathlib.Data.List.Basic
import JCUnit.Application.FetchSources
import JCUnit.Suites.RunSuites

/-!
# The options of the command line

`parse_options` goes through the arguments and compares the start of each with the options it
knows. Arguments that do not begin with two dashes are left to `fetch_sources`, which in turn
passes over those that do.
-/

namespace JCUnit

open StateError

/-- The options that set a bit. -/
inductive OptionFlag
  | showVersion
  | showHelp
  | useColors
  | noCache
  | clearCache
  | noSummary
deriving DecidableEq

def OptionFlag.bit : OptionFlag → UInt32
  | .showVersion => 1
  | .showHelp => 2
  | .useColors => 4
  | .noCache => 8
  | .clearCache => 16
  | .noSummary => 32

/-- What the argument begins with. -/
def OptionFlag.text : OptionFlag → Bytes
  | .showVersion => ascii "--version"
  | .showHelp => ascii "--help"
  | .useColors => ascii "--colors"
  | .noCache => ascii "--no-cache"
  | .clearCache => ascii "--clear-cache"
  | .noSummary => ascii "--no-summary"

structure ApplicationContext where
  runMode : UInt32
  options : UInt32
deriving DecidableEq

/-- `memset` and `init_application_context`. -/
def initApplicationContext : ApplicationContext where
  runMode := runModePassthrough
  options := 0

def ApplicationContext.set (context : ApplicationContext) (flag : OptionFlag) :
    ApplicationContext :=
  { context with options := context.options ||| flag.bit }

def ApplicationContext.has (context : ApplicationContext) (flag : OptionFlag) : Bool :=
  context.options &&& flag.bit ≠ 0

/-- `strncmp(text, arg, sizeof(text) - 1) == 0` -/
def beginsWith (text : Bytes) (arg : CString) : Bool :=
  arg.bytes.take text.length == text

def runModeText : Bytes := ascii "--run-mode="

/-- What stands behind the equals sign. -/
def givenRunMode (arg : CString) : Bytes := arg.bytes.drop runModeText.length

/-- A round of the loop of `parse_options`. -/
def parseOption (context : ApplicationContext) (arg : CString) :
    Except Halt ApplicationContext :=
  if beginsWith OptionFlag.showVersion.text arg then .ok (context.set .showVersion)
  else if beginsWith runModeText arg then
    if givenRunMode arg = ascii "detail" then .ok { context with runMode := runModeDetail }
    else if givenRunMode arg = ascii "passthrough" then
      .ok { context with runMode := runModePassthrough }
    else .error (fatalError (ascii "The unknown run mode '" ++ givenRunMode arg ++ ascii "'!"))
  else if beginsWith OptionFlag.showHelp.text arg then .ok (context.set .showHelp)
  else if beginsWith OptionFlag.useColors.text arg then .ok (context.set .useColors)
  else if beginsWith OptionFlag.noCache.text arg then .ok (context.set .noCache)
  else if beginsWith OptionFlag.clearCache.text arg then .ok (context.set .clearCache)
  else if beginsWith OptionFlag.noSummary.text arg then .ok (context.set .noSummary)
  else if isOption arg then
    .error (fatalError (ascii "The unknown option: " ++ arg.bytes ++ ascii "!"))
  else .ok context

/-- `parse_options` with the value of `JCUNIT_NO_CACHE`, over the arguments behind the program's
name. -/
def parseOptions (envNoCache : Option CString) (args : List CString) :
    Except Halt ApplicationContext :=
  let context :=
    if envNoCache.map CString.bytes = some (ascii "1") then initApplicationContext.set .noCache
    else initApplicationContext
  args.foldlM parseOption context

section Specification

/-- The run mode that an argument chooses. -/
def chosenRunMode (arg : CString) : Option UInt32 :=
  if arg.bytes = ascii "--run-mode=detail" then some runModeDetail
  else if arg.bytes = ascii "--run-mode=passthrough" then some runModePassthrough
  else none

/-- The argument is an option, but none of those there are; this is said about it. -/
def Refused (arg : CString) (message : Bytes) : Prop :=
  (runModeText <+: arg.bytes ∧ chosenRunMode arg = none ∧
    message = ascii "The unknown run mode '" ++ givenRunMode arg ++ ascii "'!") ∨
  (ascii "--" <+: arg.bytes ∧ ¬runModeText <+: arg.bytes ∧
    (∀ flag : OptionFlag, ¬flag.text <+: arg.bytes) ∧
    message = ascii "The unknown option: " ++ arg.bytes ++ ascii "!")

end Specification

section Arguments

variable {arg : CString} {flag other : OptionFlag} {context context' : ApplicationContext}

theorem beginsWith_iff {text : Bytes} : beginsWith text arg = true ↔ text <+: arg.bytes := by
  rw [beginsWith, beq_iff_eq, List.prefix_iff_eq_take, eq_comm]

theorem isOption_iff : isOption arg = true ↔ ascii "--" <+: arg.bytes := by
  have hbegins : beginsWith (ascii "--") arg = true ↔ ascii "--" <+: arg.bytes := beginsWith_iff
  exact hbegins

/-- No argument begins with two options. -/
theorem flag_unique (h : flag.text <+: arg.bytes) (h' : other.text <+: arg.bytes) :
    flag = other := by
  have hapart : ∀ flag other : OptionFlag, flag.text <+: other.text → flag = other := by
    rintro (_ | _ | _ | _ | _ | _) (_ | _ | _ | _ | _ | _)
    all_goals decide
  rcases List.prefix_or_prefix_of_prefix h h' with hle | hle
  · exact hapart flag other hle
  · exact (hapart other flag hle).symm

theorem not_flag_of_runMode (h : runModeText <+: arg.bytes) : ¬flag.text <+: arg.bytes := by
  have hapart : ¬flag.text <+: runModeText ∧ ¬runModeText <+: flag.text := by
    cases flag <;> decide
  intro h'
  rcases List.prefix_or_prefix_of_prefix h h' with hle | hle
  · exact hapart.2 hle
  · exact hapart.1 hle

theorem isOption_of_flag (h : flag.text <+: arg.bytes) : isOption arg = true := by
  have hdashes : ascii "--" <+: flag.text := by
    cases flag <;> decide
  exact isOption_iff.mpr (hdashes.trans h)

theorem isOption_of_runMode (h : runModeText <+: arg.bytes) : isOption arg = true :=
  isOption_iff.mpr (List.IsPrefix.trans (by decide) h)

theorem runMode_bytes (h : runModeText <+: arg.bytes) :
    arg.bytes = runModeText ++ givenRunMode arg := by
  obtain ⟨rest, hrest⟩ := h
  rw [givenRunMode, ← hrest, List.drop_left]

theorem chosenRunMode_eq_none (h : ¬runModeText <+: arg.bytes) : chosenRunMode arg = none := by
  have hdetail : arg.bytes ≠ ascii "--run-mode=detail" := by
    intro heq
    rw [heq] at h
    exact h (by decide)
  have hpassthrough : arg.bytes ≠ ascii "--run-mode=passthrough" := by
    intro heq
    rw [heq] at h
    exact h (by decide)
  rw [chosenRunMode, if_neg hdetail, if_neg hpassthrough]

theorem chosenRunMode_eq (h : runModeText <+: arg.bytes) : chosenRunMode arg =
    if givenRunMode arg = ascii "detail" then some runModeDetail
    else if givenRunMode arg = ascii "passthrough" then some runModePassthrough
    else none := by
  have hdetail : ascii "--run-mode=detail" = runModeText ++ ascii "detail" := by decide
  have hpassthrough : ascii "--run-mode=passthrough" = runModeText ++ ascii "passthrough" := by
    decide
  rw [chosenRunMode, runMode_bytes h, hdetail, hpassthrough]
  simp only [List.append_cancel_left_eq]

/-- A round sets the bit of a flag, chooses a run mode, refuses the argument or passes it over. -/
theorem parseOption_cases (context : ApplicationContext) (arg : CString) :
    (∃ flag : OptionFlag, flag.text <+: arg.bytes ∧
      parseOption context arg = .ok (context.set flag)) ∨
    (∃ mode, chosenRunMode arg = some mode ∧
      parseOption context arg = .ok { context with runMode := mode }) ∨
    (∃ message, Refused arg message ∧
      parseOption context arg = .error (fatalError message)) ∨
    (isOption arg = false ∧ parseOption context arg = .ok context) := by
  by_cases hmode : runModeText <+: arg.bytes
  · have hround : parseOption context arg =
        if givenRunMode arg = ascii "detail" then .ok { context with runMode := runModeDetail }
        else if givenRunMode arg = ascii "passthrough" then
          .ok { context with runMode := runModePassthrough }
        else .error (fatalError
          (ascii "The unknown run mode '" ++ givenRunMode arg ++ ascii "'!")) := by
      have hversion : ¬beginsWith OptionFlag.showVersion.text arg = true :=
        fun h => not_flag_of_runMode hmode (beginsWith_iff.mp h)
      rw [parseOption, if_neg hversion, if_pos (beginsWith_iff.mpr hmode)]
    have hchosen := chosenRunMode_eq hmode
    rw [hround]
    by_cases hdetail : givenRunMode arg = ascii "detail"
    · rw [if_pos hdetail] at hchosen ⊢
      exact Or.inr (Or.inl ⟨_, hchosen, rfl⟩)
    by_cases hpassthrough : givenRunMode arg = ascii "passthrough"
    · rw [if_neg hdetail, if_pos hpassthrough] at hchosen ⊢
      exact Or.inr (Or.inl ⟨_, hchosen, rfl⟩)
    rw [if_neg hdetail, if_neg hpassthrough] at hchosen ⊢
    exact Or.inr (Or.inr (Or.inl ⟨_, Or.inl ⟨hmode, hchosen, rfl⟩, rfl⟩))
  by_cases hflag : ∃ flag : OptionFlag, flag.text <+: arg.bytes
  · obtain ⟨flag, hflag⟩ := hflag
    refine Or.inl ⟨flag, hflag, ?_⟩
    have hother : ∀ other : OptionFlag, beginsWith other.text arg = true ↔ flag = other := by
      intro other
      rw [beginsWith_iff]
      exact ⟨flag_unique hflag, fun heq => heq ▸ hflag⟩
    simp only [parseOption, hother, beginsWith_iff.not.mpr hmode]
    cases flag <;> rfl
  · have hnone : ∀ flag : OptionFlag, ¬beginsWith flag.text arg = true :=
      fun flag h => hflag ⟨flag, beginsWith_iff.mp h⟩
    have hround : parseOption context arg = if isOption arg then
        .error (fatalError (ascii "The unknown option: " ++ arg.bytes ++ ascii "!"))
        else .ok context := by
      simp only [parseOption, hnone, beginsWith_iff.not.mpr hmode, Bool.false_eq_true, if_false]
    rw [hround]
    cases hoption : isOption arg with
    | true =>
        refine Or.inr (Or.inr (Or.inl ⟨_, Or.inr ?_, rfl⟩))
        exact ⟨isOption_iff.mp hoption, hmode, not_exists.mp hflag, rfl⟩
    | false => exact Or.inr (Or.inr (Or.inr ⟨rfl, rfl⟩))

theorem not_refused_of_flag (h : flag.text <+: arg.bytes) {message : Bytes} :
    ¬Refused arg message := by
  rintro (⟨hmode, -⟩ | ⟨-, -, hnone, -⟩)
  · exact not_flag_of_runMode hmode h
  · exact hnone flag h

theorem runMode_of_chosen {mode : UInt32} (h : chosenRunMode arg = some mode) :
    runModeText <+: arg.bytes := by
  by_contra hnot
  rw [chosenRunMode_eq_none hnot] at h
  cases h

theorem not_refused_of_chosen {mode : UInt32} (h : chosenRunMode arg = some mode)
    {message : Bytes} : ¬Refused arg message := by
  rintro (⟨-, hnone, -⟩ | ⟨-, hnot, -⟩)
  · rw [h] at hnone
    cases hnone
  · exact hnot (runMode_of_chosen h)

theorem not_refused_of_path (h : isOption arg = false) {message : Bytes} :
    ¬Refused arg message := by
  rintro (⟨hmode, -⟩ | ⟨hdashes, -⟩)
  · rw [isOption_of_runMode hmode] at h
    cases h
  · rw [isOption_iff.mpr hdashes] at h
    cases h

theorem has_set : (context.set flag).has other = true ↔
    context.has other = true ∨ flag = other := by
  have hdistrib : (context.options ||| flag.bit) &&& other.bit =
      (context.options &&& other.bit) ||| (flag.bit &&& other.bit) :=
    UInt32.toBitVec_inj.mp BitVec.and_or_distrib_right
  have hbit : flag.bit &&& other.bit = 0 ↔ ¬flag = other := by
    cases flag <;> cases other <;> decide
  simp only [ApplicationContext.has, ApplicationContext.set, hdistrib, decide_eq_true_iff, ne_eq,
    UInt32.or_eq_zero_iff, hbit]
  tauto

end Arguments

/-- What the arguments up to here have done to the context. -/
structure Accounts (start : ApplicationContext) (args : List CString)
    (context : ApplicationContext) : Prop where
  flags : ∀ flag, context.has flag = true ↔
    start.has flag = true ∨ ∃ arg ∈ args, flag.text <+: arg.bytes
  runMode : context.runMode = ((args.filterMap chosenRunMode).getLast?).getD start.runMode
  accepted : ∀ arg ∈ args, ∀ message, ¬Refused arg message

theorem accounts_nil (start : ApplicationContext) : Accounts start [] start :=
  ⟨fun _ => by simp, rfl, fun _ hmem => absurd hmem List.not_mem_nil⟩

theorem Accounts.round {start context context' : ApplicationContext} {args : List CString}
    {arg : CString} (h : Accounts start args context)
    (hround : parseOption context arg = .ok context') : Accounts start (args ++ [arg]) context' := by
  have hflags : ∀ flag : OptionFlag, (∃ other ∈ args ++ [arg], flag.text <+: other.bytes) ↔
      (∃ other ∈ args, flag.text <+: other.bytes) ∨ flag.text <+: arg.bytes := by
    intro flag
    simp [or_and_right, exists_or]
  have haccepted : (∀ message, ¬Refused arg message) →
      ∀ other ∈ args ++ [arg], ∀ message, ¬Refused other message := by
    intro harg other hmem
    rcases List.mem_append.mp hmem with hold | hnew
    · exact h.accepted other hold
    · obtain rfl := List.mem_singleton.mp hnew
      exact harg
  have hmodes : (args ++ [arg]).filterMap chosenRunMode =
      args.filterMap chosenRunMode ++ (chosenRunMode arg).toList := by
    rw [List.filterMap_append]
    cases hchosen : chosenRunMode arg <;> simp [hchosen]
  rcases parseOption_cases context arg with
    ⟨flag, hflag, hset⟩ | ⟨mode, hmode, hset⟩ | ⟨message, -, herror⟩ | ⟨hpath, hset⟩
  · cases hround.symm.trans hset
    have hnone : chosenRunMode arg = none :=
      chosenRunMode_eq_none fun hmode => not_flag_of_runMode hmode hflag
    refine ⟨?_, ?_, haccepted fun _ => not_refused_of_flag hflag⟩
    · intro other
      rw [has_set, h.flags, hflags, or_assoc]
      have hsame : flag = other ↔ other.text <+: arg.bytes :=
        ⟨fun heq => heq ▸ hflag, flag_unique hflag⟩
      rw [hsame]
    · rw [hmodes, hnone, Option.toList_none, List.append_nil]
      exact h.runMode
  · cases hround.symm.trans hset
    have hnot : ∀ flag : OptionFlag, ¬flag.text <+: arg.bytes :=
      fun flag => not_flag_of_runMode (runMode_of_chosen hmode)
    refine ⟨?_, ?_, haccepted fun _ => not_refused_of_chosen hmode⟩
    · intro flag
      rw [hflags, iff_false_intro (hnot flag), or_false]
      exact h.flags flag
    · rw [hmodes, hmode, Option.toList_some, List.getLast?_concat]
      rfl
  · cases hround.symm.trans herror
  · cases hround.symm.trans hset
    have hnot : ∀ flag : OptionFlag, ¬flag.text <+: arg.bytes := by
      intro flag hflag
      rw [isOption_of_flag hflag] at hpath
      cases hpath
    have hnone : chosenRunMode arg = none := by
      apply chosenRunMode_eq_none
      intro hmode
      rw [isOption_of_runMode hmode] at hpath
      cases hpath
    refine ⟨?_, ?_, haccepted fun _ => not_refused_of_path hpath⟩
    · intro flag
      rw [hflags, iff_false_intro (hnot flag), or_false]
      exact h.flags flag
    · rw [hmodes, hnone, Option.toList_none, List.append_nil]
      exact h.runMode

section Filters

variable (fs : FileSystem) (args : List CString)

end Filters

/-- The context tells for every option whether an argument begins with it, and the last run mode
that was chosen; the environment can switch the cache off. The first argument that is none of the
options is the one that is refused. -/
theorem parseOptions_spec (envNoCache : Option CString) (args : List CString) :
    (∀ context, parseOptions envNoCache args = .ok context →
      (∀ flag, context.has flag = true ↔ (∃ arg ∈ args, flag.text <+: arg.bytes) ∨
        flag = .noCache ∧ envNoCache.map CString.bytes = some (ascii "1")) ∧
      context.runMode = ((args.filterMap chosenRunMode).getLast?).getD runModePassthrough ∧
      ∀ arg ∈ args, ∀ message, ¬Refused arg message) ∧
    ∀ halt, parseOptions envNoCache args = .error halt →
      ∃ front arg back message, args = front ++ arg :: back ∧
        (∀ other ∈ front, ∀ message, ¬Refused other message) ∧ Refused arg message ∧
        halt = fatalError message := by
  generalize hstart : (if envNoCache.map CString.bytes = some (ascii "1") then
    initApplicationContext.set .noCache else initApplicationContext) = start
  have hrun : parseOptions envNoCache args = args.foldlM parseOption start := by
    rw [← hstart]
    rfl
  have haccounts : ∀ (items : List CString) context, items.foldlM parseOption start = .ok context →
      Accounts start items context := by
    intro items context hitems
    exact foldlM_prefix (P := Accounts start) (fun _ _ _ _ h hround => h.round hround)
      (accounts_nil start) hitems
  have hflags : ∀ flag, start.has flag = true ↔
      flag = .noCache ∧ envNoCache.map CString.bytes = some (ascii "1") := by
    intro flag
    rw [← hstart]
    by_cases henv : envNoCache.map CString.bytes = some (ascii "1")
    · rw [if_pos henv, has_set]
      have hinit : initApplicationContext.has flag = false := by
        cases flag <;> rfl
      simp [hinit, henv, eq_comm]
    · rw [if_neg henv]
      have hinit : initApplicationContext.has flag = false := by
        cases flag <;> rfl
      simp [hinit, henv]
  have hmode : start.runMode = runModePassthrough := by
    rw [← hstart]
    split <;> rfl
  rw [hrun]
  constructor
  · intro context hcontext
    have h := haccounts args context hcontext
    refine ⟨?_, ?_, h.accepted⟩
    · intro flag
      rw [h.flags, hflags, or_comm]
    · rw [h.runMode, hmode]
  · intro halt hhalt
    obtain ⟨front, arg, back, context, rfl, hfront, hlast⟩ := foldlM_eq_error hhalt
    rcases parseOption_cases context arg with
      ⟨flag, -, hset⟩ | ⟨mode, -, hset⟩ | ⟨message, hrefused, herror⟩ | ⟨-, hset⟩
    · cases hlast.symm.trans hset
    · cases hlast.symm.trans hset
    · cases hlast.symm.trans herror
      exact ⟨front, arg, back, message, rfl, (haccounts front context hfront).accepted, hrefused, rfl⟩
    · cases hlast.symm.trans hset

end JCUnit
