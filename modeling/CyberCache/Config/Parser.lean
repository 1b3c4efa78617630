import CyberCache.Types

/-!
# The configuration parser

`Parser::parse()` reads statements: a command and its arguments on one line, which a backslash may
continue. The tokens of a statement are stored one behind the other in a buffer of a fixed size;
when it is full, `get_token()` reports that the statement is too long and returns without consuming
anything. The main loop and its two inner loops are steps here; what is left of the input decides
whether they come to an end.
-/

namespace CyberCache

def parserMaxArgs : Nat := 16

def parserTotalArgsSize : Nat := 4096

def asc (c : Char) : UInt8 := UInt8.ofNat c.toNat

inductive ParserMessage where
  | strayBackslash
  | statementTooLong
  | illFormedEscape (esc esc2 : UInt8)
  | incompleteEscape (esc : UInt8)
  | invalidEscape (esc : UInt8)
  | trailingBackslash
  | missingClosingQuote (delimiter : UInt8)
  | tooManyArguments
  | unknownStatement (name : List UInt8)
  | couldNotSet
deriving DecidableEq, Repr

/-- What is left of the input, the current line, and what was logged, with line numbers. -/
structure Scanner where
  input : List UInt8
  line : Nat
  log : List (Nat × ParserMessage)
deriving DecidableEq, Repr

namespace Scanner

/-! ## White space -/

def isBlank (c : UInt8) : Bool :=
  c == asc ' ' || c == asc '\t' || c == 11

def isLineEnd (c : UInt8) : Bool :=
  c == asc '\n' || c == asc '\r'

def isQuote (c : UInt8) : Bool :=
  c == asc '\'' || c == asc '"' || c == 96

def dropLineFeed (input : List UInt8) : List UInt8 :=
  if input.head? = some (asc '\n') then input.tail else input

theorem length_dropLineFeed_le (input : List UInt8) :
    (dropLineFeed input).length ≤ input.length := by
  unfold dropLineFeed
  split_ifs <;> simp

def dropLineBreak (input : List UInt8) : List UInt8 :=
  dropLineFeed (if input.head? = some (asc '\r') then input.tail else input)

theorem length_dropLineBreak_le (input : List UInt8) :
    (dropLineBreak input).length ≤ input.length := by
  unfold dropLineBreak
  refine Nat.le_trans (length_dropLineFeed_le _) ?_
  split_ifs <;> simp

/-- Skip everything up to the next command. -/
def skipWs : Scanner → Scanner
  | ⟨[], line, log⟩ => ⟨[], line, log⟩
  | ⟨c :: rest, line, log⟩ =>
    if c = asc '\r' then skipWs ⟨dropLineFeed rest, uintAdd line 1, log⟩
    else if c = asc '\n' then skipWs ⟨rest, uintAdd line 1, log⟩
    else if isBlank c then skipWs ⟨rest, line, log⟩
    else if c = asc '#' then skipWs ⟨rest.dropWhile fun c => !isLineEnd c, line, log⟩
    else ⟨c :: rest, line, log⟩
termination_by s => s.input.length
decreasing_by
  · have hle := length_dropLineFeed_le rest
    simp only [List.length_cons]
    omega
  · simp
  · simp
  · have hle := (List.dropWhile_sublist (fun c => !isLineEnd c) (l := rest)).length_le
    simp only [List.length_cons]
    omega

/-- Skip everything up to the next argument of the command, and tell whether there is one. -/
def skipLineWs : Scanner → Bool × Scanner
  | ⟨[], line, log⟩ => (false, ⟨[], line, log⟩)
  | ⟨c :: rest, line, log⟩ =>
    if c = asc '\\' then
      if (dropLineBreak rest).length < rest.length then
        skipLineWs ⟨dropLineBreak rest, uintAdd line 1, log⟩
      else skipLineWs ⟨rest, line, log ++ [(line, .strayBackslash)]⟩
    else if isBlank c then skipLineWs ⟨rest, line, log⟩
    else if isLineEnd c || c = asc '#' then (false, ⟨c :: rest, line, log⟩)
    else (true, ⟨c :: rest, line, log⟩)
termination_by s => s.input.length
decreasing_by
  · simp only [List.length_cons]
    omega
  · simp
  · simp

/-! ## Tokens -/

def isValidXdigit (c : UInt8) : Bool :=
  (asc 'A' ≤ c && c ≤ asc 'F') || (asc 'a' ≤ c && c ≤ asc 'f') || (asc '0' ≤ c && c ≤ asc '9')

def xdigitValue (c : UInt8) : Nat :=
  if asc 'A' ≤ c ∧ c ≤ asc 'F' then c.toNat - (asc 'A').toNat + 10
  else if asc 'a' ≤ c ∧ c ≤ asc 'f' then c.toNat - (asc 'a').toNat + 10
  else c.toNat - (asc '0').toNat

/-- What a backslash and the input behind it mean: a line that is continued, a character to be
stored, or an error; with what is left of the input then. -/
inductive Escape where
  | lineBreak
  | char (c : UInt8) (rest : List UInt8)
  | error (message : ParserMessage) (rest : List UInt8)

def readEscape : List UInt8 → Escape
  | [] => .error .trailingBackslash []
  | esc :: rest =>
    if isLineEnd esc then .lineBreak
    else if esc = asc 'r' then .char (asc '\r') rest
    else if esc = asc 'n' then .char (asc '\n') rest
    else if esc = asc 't' then .char (asc '\t') rest
    else if esc = asc '\\' || isQuote esc then .char esc rest
    else if isValidXdigit esc then
      match rest with
      | [] => .error (.incompleteEscape esc) (esc :: rest)
      | esc2 :: rest' =>
        if isValidXdigit esc2 then
          .char (UInt8.ofNat (16 * xdigitValue esc + xdigitValue esc2)) rest'
        else .error (.illFormedEscape esc esc2) (esc :: rest)
    else .error (.invalidEscape esc) (esc :: rest)

theorem length_readEscape_char {input rest : List UInt8} {c : UInt8}
    (h : readEscape input = .char c rest) : rest.length < input.length := by
  fun_cases readEscape input <;> simp_all [readEscape]

theorem length_readEscape_error {input rest : List UInt8} {message : ParserMessage}
    (h : readEscape input = .error message rest) : rest.length ≤ input.length := by
  fun_cases readEscape input <;> simp_all [readEscape]

/-- How the loop of `get_token()` ended: with the last character it looked at, `none` for an error,
the characters of the token, and the number of bytes in the token buffer. -/
structure TokenScan where
  last : Option UInt8
  text : List UInt8
  tokpos : Nat
  scanner : Scanner

/-- The loop of `get_token()`; `delimiter` is zero for a token without quotes. -/
def tokenLoop (delimiter last : UInt8) (text : List UInt8) (tokpos : Nat) : Scanner → TokenScan
  | ⟨[], line, log⟩ => ⟨some last, text, tokpos, ⟨[], line, log⟩⟩
  | ⟨c :: rest, line, log⟩ =>
    if parserTotalArgsSize ≤ tokpos then
      ⟨none, text, tokpos, ⟨c :: rest, line, log ++ [(line, .statementTooLong)]⟩⟩
    else if (c = asc ' ' || c = asc '\t' || c = asc '#') && delimiter ≠ 0 then
      tokenLoop delimiter c (text ++ [c]) (tokpos + 1) ⟨rest, line, log⟩
    else if isBlank c || isLineEnd c || c = asc '#' then
      ⟨some c, text, tokpos, ⟨c :: rest, line, log⟩⟩
    else if c = asc '\\' then
      match h : readEscape rest with
      | .lineBreak =>
        if delimiter ≠ 0 then
          tokenLoop delimiter c text tokpos ⟨dropLineBreak rest, uintAdd line 1, log⟩
        else ⟨some c, text, tokpos, ⟨rest, line, log⟩⟩
      | .char esc rest' => tokenLoop delimiter c (text ++ [esc]) (tokpos + 1) ⟨rest', line, log⟩
      | .error message rest' => ⟨none, text, tokpos, ⟨rest', line, log ++ [(line, message)]⟩⟩
    else if c ≠ 0 && c = delimiter then ⟨some c, text, tokpos, ⟨rest, line, log⟩⟩
    else tokenLoop delimiter c (text ++ [c]) (tokpos + 1) ⟨rest, line, log⟩
termination_by s => s.input.length
decreasing_by
  · simp
  · have hle := length_dropLineBreak_le rest
    simp only [List.length_cons]
    omega
  · have hlt := length_readEscape_char h
    simp only [List.length_cons]
    omega
  · simp

/-- `get_token()`: the token, if there is one, and the number of bytes in the token buffer. The zero
byte that closes a token is counted; that of a token which fills the buffer lies behind it. -/
def getToken (tokpos : Nat) (s : Scanner) : Option (List UInt8) × Nat × Scanner :=
  let first := s.input.headD 0
  let delimiter := if isQuote first then first else 0
  let scan := tokenLoop delimiter 0 [] tokpos
    (if isQuote first then { s with input := s.input.tail } else s)
  match scan.last with
  | none => (none, scan.tokpos, scan.scanner)
  | some last =>
    if delimiter ≠ 0 ∧ last ≠ delimiter then
      (none, scan.tokpos, { scan.scanner with
        log := scan.scanner.log ++ [(scan.scanner.line, .missingClosingQuote delimiter)] })
    else if scan.text ≠ [] ∨ delimiter ≠ 0 then (some scan.text, scan.tokpos + 1, scan.scanner)
    else (none, scan.tokpos, scan.scanner)

end Scanner

/-! ## Statements -/

/-- An argument; `none` stands for the null pointer that a failed `get_token()` returns. -/
abbrev ParserArgument := Option (List UInt8)

/-- The commands that are registered with a parser, and what the handler of a statement's command
returns. It may depend on all statements that were executed before. -/
structure ParserCommands where
  registered : List UInt8 → Bool
  setProc : List (List ParserArgument) → List ParserArgument → Bool

/-- Where the parser is: at the head of its main loop, in the loop that collects the arguments of a
command, in the loop that consumes the rest of a statement, or behind all of them. -/
inductive ParserPhase where
  | statement
  | arguments
  | skipping
  | finished
deriving DecidableEq, Repr

structure ParserState where
  scanner : Scanner
  phase : ParserPhase
  tokpos : Nat
  args : List ParserArgument
  executed : List (List ParserArgument)
  result : Bool
deriving DecidableEq, Repr

namespace Parser

open Scanner

def logStatus (s : ParserState) (message : ParserMessage) : ParserState :=
  { s with scanner.log := s.scanner.log ++ [(s.scanner.line, message)] }

def takeToken (s : ParserState) : Option (List UInt8) × ParserState :=
  let (token, tokpos, scanner) := getToken s.tokpos s.scanner
  (token, { s with scanner := scanner, tokpos := tokpos })

def addArgument (s : ParserState) (token : ParserArgument) : Bool × ParserState :=
  if s.args.length < parserMaxArgs then (true, { s with args := s.args ++ [token] })
  else (false, logStatus s .tooManyArguments)

def invoke (commands : ParserCommands) (s : ParserState) : ParserState :=
  let done := { s with phase := .statement, executed := s.executed ++ [s.args] }
  if commands.setProc s.executed s.args then done
  else { logStatus done .couldNotSet with result := false }

def stepStatement (commands : ParserCommands) (s : ParserState) : ParserState :=
  let scanner := s.scanner.skipWs
  if scanner.input = [] then { s with scanner := scanner, phase := .finished }
  else
    let (token, s) := takeToken { s with scanner := scanner, tokpos := 0, args := [] }
    match token with
    | none => { s with phase := .skipping }
    | some command =>
      let s := (addArgument s (some command)).2
      if commands.registered command then { s with phase := .arguments }
      else { logStatus s (.unknownStatement command) with phase := .skipping, result := false }

/-- One round of the loop that collects arguments, or what follows it. -/
def stepArguments (commands : ParserCommands) (s : ParserState) : ParserState :=
  match s.scanner.skipLineWs with
  | (false, scanner) => invoke commands { s with scanner := scanner }
  | (true, scanner) =>
    let (token, s) := takeToken { s with scanner := scanner }
    match addArgument s token with
    | (true, s) => s
    | (false, s) => { s with phase := .skipping, result := false }

/-- One round of the loop that consumes the rest of a statement. -/
def stepSkipping (s : ParserState) : ParserState :=
  match s.scanner.skipLineWs with
  | (false, scanner) => { s with scanner := scanner, phase := .statement }
  | (true, scanner) => (takeToken { s with scanner := scanner }).2

def step (commands : ParserCommands) (s : ParserState) : ParserState :=
  match s.phase with
  | .statement => stepStatement commands s
  | .arguments => stepArguments commands s
  | .skipping => stepSkipping s
  | .finished => s

def start (buffer : List UInt8) : ParserState :=
  ⟨⟨buffer, 1, []⟩, .statement, 0, [], [], true⟩

/-- The state after `n` rounds. -/
def parse (commands : ParserCommands) (buffer : List UInt8) (n : Nat) : ParserState :=
  (step commands)^[n] (start buffer)

def Terminates (commands : ParserCommands) (buffer : List UInt8) : Prop :=
  ∃ n, (parse commands buffer n).phase = .finished

/-- The parser consumes the rest of a statement whose tokens fill the token buffer, and the next
token does not start with a quote. -/
def Stuck (s : ParserState) : Prop :=
  s.phase = .skipping ∧ parserTotalArgsSize ≤ s.tokpos ∧ s.scanner.skipLineWs.1 = true ∧
    ¬isQuote (s.scanner.skipLineWs.2.input.headD 0)

instance (s : ParserState) : Decidable (Stuck s) :=
  inferInstanceAs (Decidable (_ ∧ _ ∧ _ ∧ _))

end Parser

/-! ## What is left of the input -/

namespace Scanner

variable {s : Scanner} {c : UInt8} {rest : List UInt8}

def StartsToken (c : UInt8) : Prop :=
  isBlank c = false ∧ isLineEnd c = false ∧ c ≠ asc '#'

instance (c : UInt8) : Decidable (StartsToken c) :=
  inferInstanceAs (Decidable (_ ∧ _ ∧ _))

theorem length_skipWs_le (s : Scanner) : s.skipWs.input.length ≤ s.input.length := by
  fun_induction skipWs s with
  | case1 => exact Nat.le_refl _
  | case2 rest line log ih =>
    have hle := length_dropLineFeed_le rest
    simp only [List.length_cons] at ih ⊢
    omega
  | case3 rest line log _ ih =>
    simp only [List.length_cons] at ih ⊢
    omega
  | case4 c rest line log _ _ _ ih =>
    simp only [List.length_cons] at ih ⊢
    omega
  | case5 rest line log _ _ _ ih =>
    have hle := (List.dropWhile_sublist (fun c => !isLineEnd c) (l := rest)).length_le
    simp only [List.length_cons] at ih ⊢
    omega
  | case6 => exact Nat.le_refl _

theorem startsToken_skipWs (h : s.skipWs.input = c :: rest) : StartsToken c := by
  fun_induction skipWs s with
  | case1 => cases h
  | case2 _ _ _ ih => exact ih h
  | case3 _ _ _ _ ih => exact ih h
  | case4 _ _ _ _ _ _ _ ih => exact ih h
  | case5 _ _ _ _ _ _ ih => exact ih h
  | case6 c' rest' line log hcr hlf hblank hcomment =>
    obtain rfl := (List.cons.inj h).1
    refine ⟨by simpa using hblank, ?_, hcomment⟩
    simp [isLineEnd, hcr, hlf]

theorem skipWs_eq (hinput : s.input = c :: rest) (hc : StartsToken c) : s.skipWs = s := by
  obtain ⟨input, line, log⟩ := s
  subst hinput
  obtain ⟨hblank, hend, hcomment⟩ := hc
  simp only [isLineEnd, Bool.or_eq_false_iff, beq_eq_false_iff_ne] at hend
  simp [skipWs, hblank, hend, hcomment]

theorem length_skipLineWs_le (s : Scanner) : s.skipLineWs.2.input.length ≤ s.input.length := by
  fun_induction skipLineWs s with
  | case1 => exact Nat.le_refl _
  | case2 rest line log hlt ih =>
    simp only [List.length_cons] at ih ⊢
    omega
  | case3 rest line log _ ih =>
    simp only [List.length_cons] at ih ⊢
    omega
  | case4 c rest line log _ _ ih =>
    simp only [List.length_cons] at ih ⊢
    omega
  | case5 => exact Nat.le_refl _
  | case6 => exact Nat.le_refl _

/-- There is an argument if something is left that can start a token. Asked again, the answer is the
same. -/
theorem skipLineWs_found (h : s.skipLineWs.1 = true) :
    ∃ c rest, s.skipLineWs.2.input = c :: rest ∧ StartsToken c ∧ c ≠ asc '\\' := by
  fun_induction skipLineWs s with
  | case1 => cases h
  | case2 _ _ _ _ ih => exact ih h
  | case3 _ _ _ _ ih => exact ih h
  | case4 _ _ _ _ _ _ ih => exact ih h
  | case5 => cases h
  | case6 c rest line log hbackslash hblank hend =>
    simp only [Bool.or_eq_true, decide_eq_true_eq, not_or] at hend
    exact ⟨c, rest, rfl, ⟨by simpa using hblank, by simpa using hend.1, hend.2⟩, hbackslash⟩

theorem skipLineWs_eq (hinput : s.input = c :: rest)
    (hc : StartsToken c) (hbackslash : c ≠ asc '\\') : s.skipLineWs = (true, s) := by
  obtain ⟨input, line, log⟩ := s
  subst hinput
  obtain ⟨hblank, hend, hcomment⟩ := hc
  simp [skipLineWs, hblank, hend, hcomment, hbackslash]

theorem length_tokenLoop_le (delimiter last : UInt8) (text : List UInt8) (tokpos : Nat)
    (s : Scanner) :
    (tokenLoop delimiter last text tokpos s).scanner.input.length ≤ s.input.length := by
  fun_induction tokenLoop delimiter last text tokpos s
  case case1 | case2 | case4 => exact Nat.le_refl _
  case case3 ih | case10 ih => exact Nat.le_succ_of_le ih
  case case5 last text tokpos rest _ _ _ _ _ _ _ ih =>
    exact Nat.le_succ_of_le (Nat.le_trans ih (length_dropLineBreak_le rest))
  case case6 | case9 => exact Nat.le_succ _
  case case7 hescape _ _ ih =>
    exact Nat.le_succ_of_le (Nat.le_trans ih (Nat.le_of_lt (length_readEscape_char hescape)))
  case case8 hescape _ _ => exact Nat.le_succ_of_le (length_readEscape_error hescape)

theorem length_tokenLoop_lt (delimiter last : UInt8) (text : List UInt8) {tokpos : Nat}
    (htokpos : tokpos < parserTotalArgsSize) (hinput : s.input = c :: rest) (hc : StartsToken c) :
    (tokenLoop delimiter last text tokpos s).scanner.input.length < s.input.length := by
  fun_cases tokenLoop delimiter last text tokpos s
  case case1 => cases hinput
  case case2 => omega
  case case4 hend =>
    obtain rfl := (List.cons.inj hinput).1
    obtain ⟨hblank, hlineEnd, hcomment⟩ := hc
    simp [hblank, hlineEnd, hcomment] at hend
  case case3 | case10 => exact Nat.lt_succ_of_le (length_tokenLoop_le _ _ _ _ _)
  case case5 rest _ _ _ _ _ _ _ =>
    exact Nat.lt_succ_of_le (Nat.le_trans (length_tokenLoop_le _ _ _ _ _)
      (length_dropLineBreak_le _))
  case case6 | case9 => exact Nat.lt_succ_self _
  case case7 hescape _ _ =>
    exact Nat.lt_succ_of_le (Nat.le_trans (length_tokenLoop_le _ _ _ _ _)
      (Nat.le_of_lt (length_readEscape_char hescape)))
  case case8 hescape _ _ => exact Nat.lt_succ_of_le (length_readEscape_error hescape)

theorem input_getToken (tokpos : Nat) (s : Scanner) :
    (getToken tokpos s).2.2.input =
      (tokenLoop (if isQuote (s.input.headD 0) then s.input.headD 0 else 0) 0 [] tokpos
        (if isQuote (s.input.headD 0) then { s with input := s.input.tail }
        else s)).scanner.input := by
  unfold getToken
  dsimp only
  split
  · rfl
  · split_ifs <;> rfl

theorem length_getToken_le (tokpos : Nat) (s : Scanner) :
    (getToken tokpos s).2.2.input.length ≤ s.input.length := by
  rw [input_getToken]
  refine Nat.le_trans (length_tokenLoop_le _ _ _ _ _) ?_
  split_ifs <;> simp

theorem length_getToken_lt (tokpos : Nat) (hinput : s.input = c :: rest) (hc : StartsToken c)
    (hroom : tokpos < parserTotalArgsSize ∨ isQuote c) :
    (getToken tokpos s).2.2.input.length < s.input.length := by
  rw [input_getToken, hinput, List.headD_cons]
  by_cases hquote : isQuote c = true
  · rw [if_pos hquote, if_pos hquote]
    refine Nat.lt_of_le_of_lt (length_tokenLoop_le _ _ _ _ _) ?_
    simp
  · rw [if_neg hquote, if_neg hquote, ← hinput]
    exact length_tokenLoop_lt _ _ _ (hroom.resolve_right hquote) hinput hc

theorem getToken_full {tokpos : Nat} (hinput : s.input = c :: rest)
    (htokpos : parserTotalArgsSize ≤ tokpos) (hquote : ¬isQuote c) :
    ∃ log, getToken tokpos s = (none, tokpos, { s with log := log }) := by
  obtain ⟨input, line, log⟩ := s
  subst hinput
  refine ⟨log ++ [(line, .statementTooLong)], ?_⟩
  simp [getToken, hquote, tokenLoop, htokpos]

end Scanner

/-! ## Rounds -/

namespace Parser

open Scanner

variable {tokpos : Nat}

def report (scanner : Scanner) (message : ParserMessage) : Scanner :=
  { scanner with log := scanner.log ++ [(scanner.line, message)] }

inductive Round (commands : ParserCommands) (s : ParserState) : ParserState → Prop
  | finish : s.phase = .statement → s.scanner.skipWs.input = [] →
      Round commands s { s with scanner := s.scanner.skipWs, phase := .finished }
  | badCommand {tokpos : Nat} {scanner : Scanner} : s.phase = .statement →
      s.scanner.skipWs.input ≠ [] → getToken 0 s.scanner.skipWs = (none, tokpos, scanner) →
      Round commands s
        { s with scanner := scanner, tokpos := tokpos, args := [], phase := .skipping }
  | command {name : List UInt8} {tokpos : Nat} {scanner : Scanner} : s.phase = .statement →
      s.scanner.skipWs.input ≠ [] → getToken 0 s.scanner.skipWs = (some name, tokpos, scanner) →
      commands.registered name = true → Round commands s
        { s with scanner := scanner, tokpos := tokpos, args := [some name], phase := .arguments }
  | unknown {name : List UInt8} {tokpos : Nat} {scanner : Scanner} : s.phase = .statement →
      s.scanner.skipWs.input ≠ [] → getToken 0 s.scanner.skipWs = (some name, tokpos, scanner) →
      commands.registered name = false → Round commands s { s with
        scanner := report scanner (.unknownStatement name), tokpos := tokpos,
        args := [some name], phase := .skipping, result := false }
  | argument {token : ParserArgument} {tokpos : Nat} {scanner : Scanner} : s.phase = .arguments →
      s.scanner.skipLineWs.1 = true →
      getToken s.tokpos s.scanner.skipLineWs.2 = (token, tokpos, scanner) →
      s.args.length < parserMaxArgs → Round commands s
        { s with scanner := scanner, tokpos := tokpos, args := s.args ++ [token] }
  | tooMany {token : ParserArgument} {tokpos : Nat} {scanner : Scanner} : s.phase = .arguments →
      s.scanner.skipLineWs.1 = true →
      getToken s.tokpos s.scanner.skipLineWs.2 = (token, tokpos, scanner) →
      parserMaxArgs ≤ s.args.length → Round commands s { s with
        scanner := report scanner .tooManyArguments, tokpos := tokpos,
        phase := .skipping, result := false }
  | invoked : s.phase = .arguments → s.scanner.skipLineWs.1 = false →
      commands.setProc s.executed s.args = true → Round commands s { s with
        scanner := s.scanner.skipLineWs.2, phase := .statement, executed := s.executed ++ [s.args] }
  | rejected : s.phase = .arguments → s.scanner.skipLineWs.1 = false →
      commands.setProc s.executed s.args = false → Round commands s { s with
        scanner := report s.scanner.skipLineWs.2 .couldNotSet, phase := .statement,
        executed := s.executed ++ [s.args], result := false }
  | skipped {token : ParserArgument} {tokpos : Nat} {scanner : Scanner} : s.phase = .skipping →
      s.scanner.skipLineWs.1 = true →
      getToken s.tokpos s.scanner.skipLineWs.2 = (token, tokpos, scanner) →
      Round commands s { s with scanner := scanner, tokpos := tokpos }
  | skippedAll : s.phase = .skipping → s.scanner.skipLineWs.1 = false →
      Round commands s { s with scanner := s.scanner.skipLineWs.2, phase := .statement }
  | stay : s.phase = .finished → Round commands s s

variable {commands : ParserCommands} {s s' : ParserState}

theorem round_stepStatement (hphase : s.phase = .statement) :
    Round commands s (stepStatement commands s) := by
  unfold stepStatement
  dsimp only
  split_ifs with hempty
  · exact .finish hphase hempty
  · obtain ⟨⟨token, tokpos, scanner⟩, htoken⟩ :
      ∃ call, getToken 0 s.scanner.skipWs = call := ⟨_, rfl⟩
    simp only [takeToken, htoken]
    cases token with
    | none => exact .badCommand hphase hempty htoken
    | some name =>
      have hroom : ([] : List ParserArgument).length < parserMaxArgs := by decide
      simp only [addArgument, hroom, if_true, List.nil_append]
      cases hregistered : commands.registered name with
      | true => exact .command hphase hempty htoken hregistered
      | false => exact .unknown hphase hempty htoken hregistered

theorem round_stepArguments (hphase : s.phase = .arguments) :
    Round commands s (stepArguments commands s) := by
  unfold stepArguments
  split
  next scanner hskip =>
    have hnone : s.scanner.skipLineWs.1 = false := by rw [hskip]
    obtain rfl : s.scanner.skipLineWs.2 = scanner := by rw [hskip]
    unfold invoke
    dsimp only
    split_ifs with hset
    · exact .invoked hphase hnone hset
    · exact .rejected hphase hnone (Bool.eq_false_iff.mpr hset)
  next scanner hskip =>
    have hfound : s.scanner.skipLineWs.1 = true := by rw [hskip]
    obtain rfl : s.scanner.skipLineWs.2 = scanner := by rw [hskip]
    obtain ⟨⟨token, tokpos, scanner⟩, htoken⟩ :
      ∃ call, getToken s.tokpos s.scanner.skipLineWs.2 = call := ⟨_, rfl⟩
    by_cases hroom : s.args.length < parserMaxArgs
    · simp only [takeToken, htoken, addArgument, hroom, if_true]
      exact .argument hphase hfound htoken hroom
    · simp only [takeToken, htoken, addArgument, hroom, if_false]
      exact .tooMany hphase hfound htoken (Nat.le_of_not_lt hroom)

theorem round_stepSkipping (hphase : s.phase = .skipping) :
    Round commands s (stepSkipping s) := by
  unfold stepSkipping
  split
  next scanner hskip =>
    have hnone : s.scanner.skipLineWs.1 = false := by rw [hskip]
    obtain rfl : s.scanner.skipLineWs.2 = scanner := by rw [hskip]
    exact .skippedAll hphase hnone
  next scanner hskip =>
    have hfound : s.scanner.skipLineWs.1 = true := by rw [hskip]
    obtain rfl : s.scanner.skipLineWs.2 = scanner := by rw [hskip]
    exact .skipped hphase hfound rfl

theorem round_step : Round commands s (step commands s) := by
  unfold step
  split
  next hphase => exact round_stepStatement hphase
  next hphase => exact round_stepArguments hphase
  next hphase => exact round_stepSkipping hphase
  next hphase => exact .stay hphase

theorem parse_succ (commands : ParserCommands) (buffer : List UInt8) (n : Nat) :
    parse commands buffer (n + 1) = step commands (parse commands buffer n) :=
  Function.iterate_succ_apply' _ _ _

theorem round_parse (commands : ParserCommands) (buffer : List UInt8) (n : Nat) :
    Round commands (parse commands buffer n) (parse commands buffer (n + 1)) := by
  rw [parse_succ]
  exact round_step

/-! ## Termination -/

/-- How far the loops are from their ends if no more input is consumed. -/
def rank (s : ParserState) : Nat :=
  match s.phase with
  | .finished => 0
  | .statement => 1
  | .skipping => 2
  | .arguments => 3 + (parserMaxArgs - s.args.length)

def measure (s : ParserState) : Nat :=
  20 * s.scanner.input.length + rank s

theorem measure_lt_of_length (h : s'.scanner.input.length < s.scanner.input.length) :
    measure s' < measure s := by
  have hlt : rank s' < 20 := by
    unfold rank parserMaxArgs
    split <;> omega
  unfold measure
  omega

theorem measure_lt_of_rank (h : s'.scanner.input.length ≤ s.scanner.input.length)
    (hrank : rank s' < rank s) : measure s' < measure s := by
  unfold measure
  omega

theorem length_command {token : ParserArgument} {scanner : Scanner}
    (hinput : s.scanner.skipWs.input ≠ [])
    (htoken : getToken 0 s.scanner.skipWs = (token, tokpos, scanner)) :
    scanner.input.length < s.scanner.input.length := by
  obtain ⟨c, rest, hcons⟩ := List.exists_cons_of_ne_nil hinput
  have hlt := length_getToken_lt 0 hcons (startsToken_skipWs hcons) (.inl (by decide))
  rw [htoken] at hlt
  exact Nat.lt_of_lt_of_le hlt (length_skipWs_le s.scanner)

theorem length_argument {token : ParserArgument} {scanner : Scanner}
    (htoken : getToken s.tokpos s.scanner.skipLineWs.2 = (token, tokpos, scanner)) :
    scanner.input.length ≤ s.scanner.input.length := by
  have hle := length_getToken_le s.tokpos s.scanner.skipLineWs.2
  rw [htoken] at hle
  exact Nat.le_trans hle (length_skipLineWs_le s.scanner)

/-- Only a state that is stuck does not get nearer to the end. -/
theorem measure_round (h : Round commands s s') (hphase : s.phase ≠ .finished) (hstuck : ¬Stuck s) :
    measure s' < measure s := by
  have hle := length_skipLineWs_le s.scanner
  cases h with
  | finish hphase => exact measure_lt_of_rank (length_skipWs_le _) (by simp [rank, hphase])
  | badCommand _ hinput htoken | command _ hinput htoken =>
    exact measure_lt_of_length (length_command hinput htoken)
  | unknown _ hinput htoken =>
    have hlt := length_command hinput htoken
    exact measure_lt_of_length hlt
  -- whether or not something is consumed, there is one more argument or the loop is left
  | argument hphase _ htoken hroom =>
    refine measure_lt_of_rank (length_argument htoken) ?_
    simp only [rank, hphase, List.length_append, List.length_singleton]
    omega
  | tooMany hphase _ htoken =>
    have hargument := length_argument htoken
    refine measure_lt_of_rank hargument ?_
    simp only [rank, hphase]
    omega
  | invoked hphase | rejected hphase => exact measure_lt_of_rank hle (by simp [rank, hphase]; omega)
  | skipped hphase hfound htoken =>
    obtain ⟨c, rest, hinput, hc, -⟩ := skipLineWs_found hfound
    have hlt := length_getToken_lt s.tokpos hinput hc ?_
    · rw [htoken] at hlt
      exact measure_lt_of_length (Nat.lt_of_lt_of_le hlt hle)
    · simp only [Stuck, hphase, hfound, hinput, List.headD_cons, true_and, not_and, not_not]
        at hstuck
      exact (Nat.lt_or_ge s.tokpos parserTotalArgsSize).imp_right hstuck
  | skippedAll hphase => exact measure_lt_of_rank hle (by simp [rank, hphase])
  | stay hphase' => exact absurd hphase' hphase

/-- A run that never gets stuck ends. -/
theorem finishes_of_never_stuck {s : ParserState} (h : ∀ n, ¬Stuck ((step commands)^[n] s)) :
    ∃ n, ((step commands)^[n] s).phase = .finished := by
  induction hm : measure s using Nat.strong_induction_on generalizing s with
  | _ m ih =>
    by_cases hphase : s.phase = .finished
    · exact ⟨0, hphase⟩
    · have hlt : measure (step commands s) < measure s := measure_round round_step hphase (h 0)
      obtain ⟨n, hn⟩ := ih (measure (step commands s)) (by omega) (fun n => h (n + 1)) rfl
      exact ⟨n + 1, hn⟩

/-- A state that is stuck stays so: nothing but the log changes. -/
theorem stuck_step (h : Stuck s) : Stuck (step commands s) := by
  obtain ⟨hphase, htokpos, hfound, hquote⟩ := h
  obtain ⟨c, rest, hinput, hc, hbackslash⟩ := skipLineWs_found hfound
  rw [hinput, List.headD_cons] at hquote
  obtain ⟨log, htoken⟩ := getToken_full hinput htokpos hquote
  have hskip : s.scanner.skipLineWs = (true, s.scanner.skipLineWs.2) := Prod.ext hfound rfl
  have hstep : step commands s =
      { s with scanner := { s.scanner.skipLineWs.2 with log := log } } := by
    simp only [step, hphase, stepSkipping]
    rw [hskip]
    simp only [takeToken, htoken]
  have hskip' : ({ s.scanner.skipLineWs.2 with log := log } : Scanner).skipLineWs =
      (true, { s.scanner.skipLineWs.2 with log := log }) := skipLineWs_eq hinput hc hbackslash
  rw [hstep]
  refine ⟨hphase, htokpos, ?_, ?_⟩
  · rw [hskip']
  · rw [hskip', hinput]
    exact hquote

theorem stuck_forever (h : Stuck s) (n : Nat) : Stuck ((step commands)^[n] s) := by
  induction n with
  | zero => exact h
  | succ n ih =>
    rw [Function.iterate_succ_apply']
    exact stuck_step ih

theorem finished_forever (h : s.phase = .finished) (n : Nat) : (step commands)^[n] s = s := by
  induction n with
  | zero => rfl
  | succ n ih =>
    rw [Function.iterate_succ_apply', ih, step, h]

theorem not_terminates_of_stuck {buffer : List UInt8} {n : Nat}
    (hstuck : Stuck (parse commands buffer n)) : ¬Terminates commands buffer := by
  rintro ⟨k, hfinished⟩
  obtain hle | hle := Nat.le_total n k
  · obtain ⟨j, rfl⟩ := Nat.exists_eq_add_of_le' hle
    have hstuck' : Stuck ((step commands)^[j] (parse commands buffer n)) := stuck_forever hstuck j
    rw [parse, Function.iterate_add_apply] at hfinished
    rw [parse, Stuck, hfinished] at hstuck'
    cases hstuck'.1
  · obtain ⟨j, rfl⟩ := Nat.exists_eq_add_of_le' hle
    rw [parse, Function.iterate_add_apply, ← parse, finished_forever hfinished] at hstuck
    rw [hstuck.1] at hfinished
    cases hfinished

/-- `parse()` terminates if and only if it never comes to a token without quotes while it consumes
the rest of a statement that has filled the token buffer. -/
theorem terminates_iff (commands : ParserCommands) (buffer : List UInt8) :
    Terminates commands buffer ↔ ∀ n, ¬Stuck (parse commands buffer n) := by
  constructor
  · intro h n hstuck
    exact not_terminates_of_stuck hstuck h
  · intro h
    exact finishes_of_never_stuck h

theorem tokenLoop_replicate {c : UInt8} (hc : StartsToken c) (hbackslash : c ≠ asc '\\')
    (hzero : c ≠ 0) {k : Nat} (hroom : tokpos + k ≤ parserTotalArgsSize) (last : UInt8)
    (text rest : List UInt8) (line : Nat) (log : List (Nat × ParserMessage)) :
    ∃ last' text', tokenLoop 0 last text tokpos ⟨List.replicate k c ++ rest, line, log⟩ =
      tokenLoop 0 last' text' (tokpos + k) ⟨rest, line, log⟩ := by
  induction k generalizing last text tokpos with
  | zero => exact ⟨last, text, rfl⟩
  | succ k ih =>
    obtain ⟨last', text', hloop⟩ := ih (by omega : tokpos + 1 + k ≤ _) c (text ++ [c])
    refine ⟨last', text', ?_⟩
    obtain ⟨hblank, hend, hcomment⟩ := hc
    have htokpos : ¬parserTotalArgsSize ≤ tokpos := by omega
    rw [List.replicate_succ, List.cons_append, tokenLoop]
    simp only [htokpos, hblank, hend, hcomment, hbackslash, hzero, if_false, ne_eq,
      not_true_eq_false, decide_false, Bool.and_false, Bool.or_self, Bool.false_eq_true]
    rw [hloop, Nat.add_assoc, Nat.add_comm 1 k]

theorem stuck_of_long_command {c : UInt8} (hc : StartsToken c) (hbackslash : c ≠ asc '\\')
    (hzero : c ≠ 0) (hquote : ¬isQuote c) (rest : List UInt8) :
    Stuck (parse commands (List.replicate parserTotalArgsSize c ++ c :: rest) 1) := by
  obtain ⟨input, hinput⟩ : ∃ input, List.replicate parserTotalArgsSize c ++ c :: rest =
      c :: input :=
    ⟨_, by rw [parserTotalArgsSize, List.replicate_succ, List.cons_append]⟩
  obtain ⟨last, text, hloop⟩ := tokenLoop_replicate hc hbackslash hzero
    (by decide : 0 + parserTotalArgsSize ≤ parserTotalArgsSize) 0 [] (c :: rest) 1 []
  have htoken : getToken 0 ⟨List.replicate parserTotalArgsSize c ++ c :: rest, 1, []⟩ =
      (none, parserTotalArgsSize, ⟨c :: rest, 1, [(1, .statementTooLong)]⟩) := by
    rw [hinput] at hloop ⊢
    simp only [getToken, List.headD_cons, hquote, if_false, Bool.false_eq_true, hloop, Nat.zero_add]
    simp [tokenLoop]
  have hskip := skipWs_eq (s := ⟨List.replicate parserTotalArgsSize c ++ c :: rest, 1, []⟩)
    hinput hc
  have hstep : parse commands (List.replicate parserTotalArgsSize c ++ c :: rest) 1 =
      ⟨⟨c :: rest, 1, [(1, .statementTooLong)]⟩, .skipping, parserTotalArgsSize, [], [], true⟩ := by
    simp only [parse, Function.iterate_one, step, start, stepStatement, hskip, takeToken, htoken]
    rw [if_neg (by simp [hinput])]
  have hskip' := skipLineWs_eq (s := ⟨c :: rest, 1, [(1, .statementTooLong)]⟩) rfl hc hbackslash
  rw [hstep]
  refine ⟨rfl, Nat.le_refl _, ?_, ?_⟩
  · simp only [hskip']
  · simpa only [hskip', List.headD_cons] using hquote

/-- A command of 4097 letters. Its first 4096 letters fill the token buffer, and the last one is
never consumed. -/
theorem long_command_never_parsed :
    ¬Terminates ⟨fun _ => false, fun _ _ => true⟩ (List.replicate 4097 (asc 'a')) := by
  have hbuffer : List.replicate 4097 (asc 'a') =
      List.replicate parserTotalArgsSize (asc 'a') ++ [asc 'a'] := List.replicate_succ' ..
  rw [hbuffer]
  exact not_terminates_of_stuck
    (stuck_of_long_command (by decide) (by decide) (by decide) (by decide) [])

end Parser

end CyberCache
