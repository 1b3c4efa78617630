import CyberCache.Config.TokenBuffer

/-!
# Error reports of the parser

`parse()` returns false after an unknown command, after too many arguments, and after a statement
that its handler refused. What goes wrong while tokens are read is logged, but it is not returned: a
command that could not be read is skipped, a backslash that continues no line is ignored, and for an
argument that could not be read a null pointer is handed to the handler.
-/

namespace CyberCache

namespace Scanner

/-! ## The log grows -/

@[simp] theorem log_skipWs (s : Scanner) : s.skipWs.log = s.log := by
  fun_induction skipWs s with
  | case1 => rfl
  | case2 _ _ _ ih => exact ih
  | case3 _ _ _ _ ih => exact ih
  | case4 _ _ _ _ _ _ _ ih => exact ih
  | case5 _ _ _ _ _ _ ih => exact ih
  | case6 => rfl

theorem log_skipLineWs (s : Scanner) : s.log <+: s.skipLineWs.2.log := by
  fun_induction skipLineWs s with
  | case1 => exact List.prefix_rfl
  | case2 _ _ _ _ ih => exact ih
  | case3 _ _ _ _ ih => exact (List.prefix_append _ _).trans ih
  | case4 _ _ _ _ _ _ ih => exact ih
  | case5 => exact List.prefix_rfl
  | case6 => exact List.prefix_rfl

theorem log_tokenLoop (delimiter last : UInt8) (text : List UInt8) (tokpos : Nat) (s : Scanner) :
    s.log <+: (tokenLoop delimiter last text tokpos s).scanner.log := by
  fun_induction tokenLoop delimiter last text tokpos s
  case case3 ih | case5 ih | case7 ih | case10 ih => exact ih
  case case2 | case8 => exact List.prefix_append _ _
  all_goals exact List.prefix_rfl

theorem log_finishToken (delimiter : UInt8) (scan : TokenScan) :
    scan.scanner.log <+: (finishToken delimiter scan).2.2.log := by
  unfold finishToken
  split
  · exact List.prefix_rfl
  · split_ifs
    · exact List.prefix_append _ _
    · exact List.prefix_rfl
    · exact List.prefix_rfl

theorem log_getToken (tokpos : Nat) (s : Scanner) : s.log <+: (getToken tokpos s).2.2.log := by
  rw [getToken_eq]
  refine List.IsPrefix.trans ?_ (log_finishToken _ _)
  unfold scanToken
  split_ifs
  · exact log_tokenLoop _ _ _ _ { s with input := s.input.tail }
  · exact log_tokenLoop _ _ _ _ s

end Scanner

namespace Parser

open Scanner

/-! ## What a round reports -/

/-- What is logged when white space was skipped and a token was read in the next round. -/
def scannedLog (s : ParserState) : List (Nat × ParserMessage) :=
  match tokenCall s with
  | some (tokpos, scanner) => (getToken tokpos scanner).2.2.log
  | none =>
    match s.phase with
    | .arguments | .skipping => s.scanner.skipLineWs.2.log
    | .statement | .finished => s.scanner.log

/-- Something is logged while white space is skipped and a token is read: a quote is not closed, an
escape sequence is ill-formed, a backslash is misplaced, or the statement is too long. -/
def LexicalError (s : ParserState) : Prop := scannedLog s ≠ s.scanner.log

def Executes (s : ParserState) : Prop :=
  s.phase = .arguments ∧ s.scanner.skipLineWs.1 = false

instance (s : ParserState) : Decidable (Executes s) :=
  inferInstanceAs (Decidable (_ ∧ _))

def ReadsArgument (s : ParserState) : Prop :=
  s.phase = .arguments ∧ s.scanner.skipLineWs.1 = true

/-- A command is not known, there are too many arguments, or the handler refuses them. -/
def Refused (commands : ParserCommands) (s : ParserState) : Prop :=
  (s.phase = .statement ∧ s.scanner.skipWs.input ≠ [] ∧
    ∃ name ∈ (getToken 0 s.scanner.skipWs).1, commands.registered name = false) ∨
  (ReadsArgument s ∧ parserMaxArgs ≤ s.args.length) ∨
  (Executes s ∧ commands.setProc s.executed s.args = false)

/-- The next round reads an argument that turns out to be no token. -/
def IllFormedArgument (s : ParserState) : Prop :=
  ReadsArgument s ∧ s.args.length < parserMaxArgs ∧
    (getToken s.tokpos s.scanner.skipLineWs.2).1 = none

variable {commands : ParserCommands} {s s' : ParserState}

theorem log_scanned (s : ParserState) : s.scanner.log <+: scannedLog s := by
  unfold scannedLog tokenCall
  cases s.phase with
  | statement =>
    dsimp only
    split_ifs with hinput
    · exact List.prefix_rfl
    · simpa using log_getToken 0 s.scanner.skipWs
  | arguments | skipping =>
    dsimp only
    split_ifs with hfound
    · exact (log_skipLineWs _).trans (log_getToken _ _)
    · exact log_skipLineWs _
  | finished => exact List.prefix_rfl

/-- What a round reports: the result becomes false, with an entry in the log, exactly if something
is refused; all other entries come from the tokens. -/
theorem reports_round (h : Round commands s s') :
    (¬ Refused commands s ∧ s'.result = s.result ∧ s'.scanner.log = scannedLog s) ∨
      (Refused commands s ∧ s'.result = false ∧ ∃ entry, s'.scanner.log = scannedLog s ++
      [entry]) := by
  cases h with
  | finish hphase hinput =>
    exact .inl ⟨by simp [Refused, ReadsArgument, Executes, hphase, hinput], rfl,
      by simp [scannedLog, tokenCall, hphase, hinput]⟩
  | badCommand hphase hinput htoken =>
    exact .inl ⟨by simp [Refused, ReadsArgument, Executes, hphase, htoken], rfl,
      by simp [scannedLog, tokenCall, hphase, hinput, htoken]⟩
  | command hphase hinput htoken hregistered =>
    exact .inl ⟨by simp [Refused, ReadsArgument, Executes, hphase, htoken, hregistered], rfl,
      by simp [scannedLog, tokenCall, hphase, hinput, htoken]⟩
  | unknown hphase hinput htoken hregistered =>
    exact .inr ⟨by simp [Refused, hphase, hinput, htoken, hregistered], rfl,
      by simp [scannedLog, tokenCall, hphase, hinput, htoken, report]⟩
  | argument hphase hfound htoken hroom =>
    exact .inl ⟨by simp [Refused, ReadsArgument, Executes, hphase, hfound, Nat.not_le.mpr hroom],
      rfl, by simp [scannedLog, tokenCall, hphase, hfound, htoken]⟩
  | tooMany hphase hfound htoken hfull =>
    exact .inr ⟨by simp [Refused, ReadsArgument, hphase, hfound, hfull], rfl,
      by simp [scannedLog, tokenCall, hphase, hfound, htoken, report]⟩
  | invoked hphase hnone hset =>
    exact .inl ⟨by simp [Refused, ReadsArgument, Executes, hphase, hnone, hset], rfl,
      by simp [scannedLog, tokenCall, hphase, hnone]⟩
  | rejected hphase hnone hset =>
    exact .inr ⟨by simp [Refused, Executes, hphase, hnone, hset], rfl,
      by simp [scannedLog, tokenCall, hphase, hnone, report]⟩
  | skipped hphase hfound htoken =>
    exact .inl ⟨by simp [Refused, ReadsArgument, Executes, hphase], rfl,
      by simp [scannedLog, tokenCall, hphase, hfound, htoken]⟩
  | skippedAll hphase hnone =>
    exact .inl ⟨by simp [Refused, ReadsArgument, Executes, hphase], rfl,
      by simp [scannedLog, tokenCall, hphase, hnone]⟩
  | stay hphase =>
    exact .inl ⟨by simp [Refused, ReadsArgument, Executes, hphase], rfl,
      by simp [scannedLog, tokenCall, hphase]⟩

theorem executed_round (h : Round commands s s') :
    s'.executed = s.executed ++ (if Executes s then [s.args] else []) := by
  cases h with
  | finish hphase | badCommand hphase | command hphase | unknown hphase => simp [Executes, hphase]
  | argument hphase hfound | tooMany hphase hfound => simp [Executes, hfound]
  | invoked hphase hnone | rejected hphase hnone => simp [Executes, hphase, hnone]
  | skipped hphase | skippedAll hphase | stay hphase => simp [Executes, hphase]

theorem args_round (h : Round commands s s') (hphase' : s'.phase = .arguments) :
    (s.phase = .statement ∧ ∃ name, s'.args = [some name]) ∨
      (ReadsArgument s ∧ s.args.length < parserMaxArgs ∧
        s'.args = s.args ++ [(getToken s.tokpos s.scanner.skipLineWs.2).1]) := by
  cases h with
  | command hphase => exact .inl ⟨hphase, _, rfl⟩
  | argument hphase hfound htoken hroom => exact .inr ⟨⟨hphase, hfound⟩, hroom, by simp [htoken]⟩
  | skipped hphase | stay hphase => exact absurd (hphase.symm.trans hphase') (by decide)
  | _ => cases hphase'

/-! ## What is reported in the end -/

variable {buffer : List UInt8}

theorem result_parse (n : Nat) :
    (parse commands buffer n).result = true ↔
      ∀ k < n, ¬ Refused commands (parse commands buffer k) := by
  induction n with
  | zero => exact ⟨fun _ k hk => absurd hk (Nat.not_lt_zero k), fun _ => rfl⟩
  | succ n ih =>
    rw [Nat.forall_lt_succ_right, ← ih]
    obtain ⟨hpassed, hresult, -⟩ | ⟨hrefused, hresult, -⟩ :=
      reports_round (round_parse commands buffer n)
    · rw [hresult]
      exact ⟨fun h => ⟨h, hpassed⟩, And.left⟩
    · rw [hresult]
      exact ⟨fun h => (Bool.false_ne_true h).elim, fun h => absurd hrefused h.2⟩

theorem log_parse (n : Nat) :
    (parse commands buffer n).scanner.log = [] ↔ ∀ k < n,
      ¬ Refused commands (parse commands buffer k) ∧ ¬ LexicalError (parse commands buffer k) := by
  induction n with
  | zero => exact ⟨fun _ k hk => absurd hk (Nat.not_lt_zero k), fun _ => rfl⟩
  | succ n ih =>
    rw [Nat.forall_lt_succ_right, ← ih]
    have hgrows := log_scanned (parse commands buffer n)
    obtain ⟨hpassed, -, hlog⟩ | ⟨hrefused, -, entry, hlog⟩ :=
      reports_round (round_parse commands buffer n)
    · rw [hlog]
      constructor
      · intro hempty
        rw [hempty, List.prefix_nil] at hgrows
        exact ⟨hgrows, hpassed, fun herror => herror (hempty.trans hgrows.symm)⟩
      · rintro ⟨hempty, -, hquiet⟩
        exact (not_not.mp hquiet).trans hempty
    · rw [hlog]
      exact ⟨fun h => absurd h (by simp), fun h => absurd hrefused h.2.1⟩

theorem parse_of_finished {n k : Nat} (hfinished : (parse commands buffer n).phase = .finished)
    (hle : n ≤ k) : parse commands buffer k = parse commands buffer n := by
  obtain ⟨d, rfl⟩ := Nat.exists_eq_add_of_le hle
  rw [parse, Nat.add_comm, Function.iterate_add_apply]
  exact finished_forever hfinished d

theorem not_refused_of_finished (h : s.phase = .finished) : ¬ Refused commands s := by
  simp [Refused, ReadsArgument, Executes, h]

theorem not_lexicalError_of_finished (h : s.phase = .finished) : ¬ LexicalError s := by
  simp [LexicalError, scannedLog, tokenCall, h]

theorem forall_of_finished (P : ParserState → Prop) {n : Nat}
    (hfinished : (parse commands buffer n).phase = .finished) (hend : P (parse commands buffer n)) :
    (∀ k < n, P (parse commands buffer k)) ↔ ∀ k, P (parse commands buffer k) := by
  refine ⟨fun h k => ?_, fun h k _ => h k⟩
  obtain hlt | hle := Nat.lt_or_ge k n
  · exact h k hlt
  · rw [parse_of_finished hfinished hle]
    exact hend

/-! ## What handlers are called with -/

/-- From round `n` to round `m` the arguments of one statement are collected. -/
def SameStatement (commands : ParserCommands) (buffer : List UInt8) (n m : Nat) : Prop :=
  n < m ∧ ∀ k, n ≤ k → k ≤ m → (parse commands buffer k).phase = .arguments

/-- A null pointer is among the arguments exactly if one of them was ill-formed. -/
theorem none_mem_args_iff (m : Nat) (hphase : (parse commands buffer m).phase = .arguments) :
    none ∈ (parse commands buffer m).args ↔
      ∃ n, SameStatement commands buffer n m ∧ IllFormedArgument (parse commands buffer n) := by
  induction m with
  | zero => cases hphase
  | succ m ih =>
    obtain ⟨hcommand, name, hargs⟩ | ⟨hreads, hroom, hargs⟩ :=
      args_round (round_parse commands buffer m) hphase
    · rw [hargs]
      refine ⟨fun h => absurd h (by simp), ?_⟩
      rintro ⟨n, ⟨hlt, hsame⟩, -⟩
      have harguments := hsame m (by omega) (by omega)
      exact absurd (hcommand.symm.trans harguments) (by decide)
    · rw [hargs, List.mem_append, ih hreads.1, List.mem_singleton]
      constructor
      · rintro (⟨n, ⟨hlt, hsame⟩, hill⟩ | hnone)
        · refine ⟨n, ⟨by omega, fun k hn hk => ?_⟩, hill⟩
          obtain hk | rfl := Nat.lt_or_eq_of_le hk
          · exact hsame k hn (by omega)
          · exact hphase
        · refine ⟨m, ⟨by omega, fun k hn hk => ?_⟩, hreads, hroom, hnone.symm⟩
          obtain rfl | rfl : k = m ∨ k = m + 1 := by omega
          · exact hreads.1
          · exact hphase
      · rintro ⟨n, ⟨hlt, hsame⟩, hill⟩
        obtain hlt | rfl := Nat.lt_or_eq_of_le (Nat.le_of_lt_succ hlt)
        · exact .inl ⟨n, ⟨hlt, fun k hn hk => hsame k hn (by omega)⟩, hill⟩
        · exact .inr hill.2.2.symm

theorem mem_executed_iff (n : Nat) (statement : List ParserArgument) :
    statement ∈ (parse commands buffer n).executed ↔
      ∃ m < n, Executes (parse commands buffer m) ∧ (parse commands buffer m).args = statement := by
  induction n with
  | zero => exact ⟨fun h => absurd h List.not_mem_nil, fun ⟨m, hm, _⟩ => absurd hm
      (Nat.not_lt_zero m)⟩
  | succ n ih =>
    rw [executed_round (round_parse commands buffer n), List.mem_append, ih,
      Nat.exists_lt_succ_right]
    apply or_congr Iff.rfl
    split_ifs with hexecutes
    · simp [hexecutes, eq_comm]
    · simp [hexecutes]

/-- If `parse()` returns true, nothing at all was logged; and handlers get tokens only, with their
lengths. The length that `get_token()` returns is the number of bytes it stored. -/
structure ReportsErrors (commands : ParserCommands) (buffer : List UInt8) : Prop where
  logged : ∀ n, (parse commands buffer n).phase = .finished →
    (parse commands buffer n).result = true → (parse commands buffer n).scanner.log = []
  tokens : ∀ n, ∀ statement ∈ (parse commands buffer n).executed, none ∉ statement
  lengths : ∀ n tokpos scanner, tokenCall (parse commands buffer n) = some (tokpos, scanner) →
    ∀ text ∈ (getToken tokpos scanner).1, (scanToken tokpos scanner).tokpos - tokpos = text.length

/-- Errors are reported exactly if no statement with an ill-formed argument is executed, and if
errors in the tokens are accompanied by something that is refused. -/
theorem reportsErrors_iff (commands : ParserCommands) (buffer : List UInt8) :
    ReportsErrors commands buffer ↔
      (∀ n m, SameStatement commands buffer n m → IllFormedArgument (parse commands buffer n) →
        ¬ Executes (parse commands buffer m)) ∧
      (Terminates commands buffer → (∃ k, Refused commands (parse commands buffer k)) ∨
        ∀ k, ¬ LexicalError (parse commands buffer k)) := by
  constructor
  · intro hreports
    refine ⟨fun n m hsame hill hexecutes => ?_, ?_⟩
    · have hmem := (mem_executed_iff (m + 1) _).mpr ⟨m, by omega, hexecutes, rfl⟩
      exact hreports.tokens (m + 1) _ hmem ((none_mem_args_iff m hexecutes.1).mpr ⟨n, hsame, hill⟩)
    · rintro ⟨n, hfinished⟩
      refine or_iff_not_imp_left.mpr fun hpassed => ?_
      have hresult := (result_parse n).mpr fun k _ hrefused => hpassed ⟨k, hrefused⟩
      have hlog := (log_parse n).mp (hreports.logged n hfinished hresult)
      exact (forall_of_finished (¬ LexicalError ·) hfinished
        (not_lexicalError_of_finished hfinished)).mp fun k hk => (hlog k hk).2
  · rintro ⟨hwellFormed, hrefused⟩
    refine ⟨fun n hfinished hresult => ?_, fun n statement hmem hnone => ?_, ?_⟩
    · have hpassed := (forall_of_finished (¬ Refused commands ·) hfinished
        (not_refused_of_finished hfinished)).mp ((result_parse n).mp hresult)
      obtain ⟨k, hk⟩ | hquiet := hrefused ⟨n, hfinished⟩
      · exact absurd hk (hpassed k)
      · exact (log_parse n).mpr fun k _ => ⟨hpassed k, hquiet k⟩
    · obtain ⟨m, -, hexecutes, rfl⟩ := (mem_executed_iff n statement).mp hmem
      obtain ⟨k, hsame, hill⟩ := (none_mem_args_iff m hexecutes.1).mp hnone
      exact hwellFormed k m hsame hill hexecutes
    · intro n tokpos scanner _ text htext
      rw [getToken_eq] at htext
      obtain ⟨rfl, -⟩ := finishToken_some htext
      rw [scanToken_tokpos]
      omega

/-- The quote behind the command is not closed. The handler gets a null pointer for it. -/
theorem open_quote_accepted :
    ¬ ReportsErrors ⟨fun _ => true, fun _ _ => true⟩ [asc 'a', asc ' ', asc '"'] := by
  intro h
  have hexecuted : (parse ⟨fun _ => true, fun _ _ => true⟩ [asc 'a', asc ' ', asc '"'] 3).executed =
      [[some [asc 'a'], none]] := by
    decide +kernel
  refine h.tokens 3 [some [asc 'a'], none] ?_ ?_
  · rw [hexecuted]
    exact List.mem_singleton_self _
  · exact List.mem_cons_of_mem _ List.mem_cons_self

end Parser

end CyberCache
