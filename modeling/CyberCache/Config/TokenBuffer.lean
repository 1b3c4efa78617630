import CyberCache.Config.Parser

/-!
# The token buffer

`get_token()` stores the characters of a token and a zero byte behind them in `pr_tokens`. Whether
there is room is tested at the head of its loop only. A token without quotes whose last character
takes the last byte of the buffer, and which ends with the input, leaves the loop without that test,
and its zero byte is stored behind the buffer. In all other cases the zero byte has its place.
-/

namespace CyberCache

namespace Scanner

variable {tokpos : Nat} {c delimiter : UInt8} {text rest : List UInt8} {s : Scanner}

def delimiterOf (s : Scanner) : UInt8 := if isQuote (s.input.headD 0) then s.input.headD 0 else 0

def scanToken (tokpos : Nat) (s : Scanner) : TokenScan :=
  tokenLoop s.delimiterOf 0 [] tokpos
    (if isQuote (s.input.headD 0) then { s with input := s.input.tail } else s)

/-- What is stored in the token buffer by a call of `get_token()`, with the indices: the characters
one behind the other, and the zero byte of a token that is returned. -/
def tokenStores (tokpos : Nat) (s : Scanner) : List (UInt8 × Nat) :=
  (scanToken tokpos s).text.zipIdx tokpos ++
    if (getToken tokpos s).1.isSome then [(0, (scanToken tokpos s).tokpos)] else []

/-- All that is stored is stored in the buffer, and so is the zero byte behind a token. -/
def StoresWithin (tokpos : Nat) (s : Scanner) : Prop :=
  (∀ store ∈ tokenStores tokpos s, store.2 < parserTotalArgsSize) ∧
  ∀ text, (getToken tokpos s).1 = some text →
    tokpos + text.length < parserTotalArgsSize ∧ (0, tokpos + text.length) ∈ tokenStores tokpos s

/-- The characters of a token without quotes that goes on to the end of the input. -/
def plainText (input : List UInt8) : Option (List UInt8) :=
  match input with
  | [] => some []
  | c :: rest =>
    if isBlank c || isLineEnd c || c = asc '#' then none
    else if c = asc '\\' then
      match _h : readEscape rest with
      | .char esc rest' => (plainText rest').map (esc :: ·)
      | _ => none
    else (plainText rest).map (c :: ·)
termination_by input.length
decreasing_by
  · have hlt := length_readEscape_char _h
    simp only [List.length_cons]
    omega
  · simp

/-- A token without quotes goes on to the end of the input and fills the buffer exactly. -/
def FillsBuffer (tokpos : Nat) (input : List UInt8) : Prop :=
  isQuote (input.headD 0) = false ∧
    ∃ text, plainText input = some text ∧ tokpos + text.length = parserTotalArgsSize

/-! ## The loop -/

theorem tokpos_tokenLoop (delimiter last : UInt8) (text : List UInt8) (tokpos : Nat) (s : Scanner) :
    (tokenLoop delimiter last text tokpos s).tokpos + text.length =
      tokpos + (tokenLoop delimiter last text tokpos s).text.length := by
  fun_induction tokenLoop delimiter last text tokpos s
  case case3 ih | case7 ih | case10 ih =>
    rw [List.length_append, List.length_singleton] at ih
    omega
  case case5 ih => exact ih
  all_goals rfl

theorem tokpos_tokenLoop_le (delimiter last : UInt8) (text : List UInt8)
    (htokpos : tokpos ≤ parserTotalArgsSize) (s : Scanner) :
    (tokenLoop delimiter last text tokpos s).tokpos ≤ parserTotalArgsSize := by
  fun_induction tokenLoop delimiter last text tokpos s
  case case3 ih | case7 ih | case10 ih => exact ih (by omega)
  case case5 ih => exact ih htokpos
  all_goals exact htokpos

theorem isQuote_spec (hc : isQuote c = true) :
    StartsToken c ∧ c ≠ asc '\\' ∧ c ≠ 0 := by
  simp only [isQuote, Bool.or_eq_true, beq_iff_eq] at hc
  obtain (rfl | rfl) | rfl := hc <;> decide

theorem tokpos_tokenLoop_lt_of_closed {last : UInt8} (hquote : isQuote delimiter = true)
    (hlast : last ≠ delimiter)
    (hclosed : (tokenLoop delimiter last text tokpos s).last = some delimiter) :
    (tokenLoop delimiter last text tokpos s).tokpos < parserTotalArgsSize := by
  obtain ⟨⟨hblank, hend, hcomment⟩, hbackslash, hzero⟩ := isQuote_spec hquote
  fun_induction tokenLoop delimiter last text tokpos s
  case case1 => exact absurd (Option.some.inj hclosed) hlast
  case case2 | case8 => cases hclosed
  case case3 c rest line log _ hc ih =>
    apply ih _ hclosed
    rintro rfl
    simp only [isBlank, Bool.or_eq_false_iff, beq_eq_false_iff_ne] at hblank
    simp [hblank, hcomment] at hc
  case case4 c rest line log _ _ hstop =>
    cases hclosed
    simp [hblank, hend, hcomment] at hstop
  case case5 ih => exact ih (Ne.symm hbackslash) hclosed
  case case6 => exact absurd (Option.some.inj hclosed) (Ne.symm hbackslash)
  case case7 ih => exact ih (Ne.symm hbackslash) hclosed
  case case9 hroom _ _ _ _ => exact Nat.lt_of_not_le hroom
  case case10 c rest line log _ _ _ _ hopen ih =>
    apply ih _ hclosed
    rintro rfl
    simp [hzero] at hopen

theorem plainText_stop (hc : isBlank c || isLineEnd c || c = asc '#') (rest : List UInt8) :
    plainText (c :: rest) = none := by
  rw [plainText, if_pos hc]

theorem plainText_char (hstop : ¬(isBlank c || isLineEnd c || c = asc '#'))
    (hc : c ≠ asc '\\') (rest : List UInt8) :
    plainText (c :: rest) = (plainText rest).map (c :: ·) := by
  rw [plainText, if_neg hstop, if_neg hc]

theorem plainText_escape {rest' : List UInt8} {esc : UInt8}
    (h : readEscape rest = .char esc rest') :
    plainText (asc '\\' :: rest) = (plainText rest').map (esc :: ·) := by
  rw [plainText, if_neg (by decide), if_pos rfl]
  split
  next h' =>
    obtain ⟨rfl, rfl⟩ := Escape.char.inj (h.symm.trans h')
    rfl
  next h' => exact absurd h (h' esc rest')

theorem plainText_escape_none (h : ∀ esc rest', readEscape rest ≠ .char esc rest') :
    plainText (asc '\\' :: rest) = none := by
  rw [plainText, if_neg (by decide), if_pos rfl]
  split
  next h' => exact absurd h' (h _ _)
  next => rfl

theorem plainText_ne_nil (h : plainText (c :: rest) = some text) :
    text ≠ [] := by
  rintro rfl
  rw [plainText] at h
  split_ifs at h
  · split at h
    · simp at h
    · cases h
  · simp at h

/-- A token without quotes fills the buffer only if it goes on to the end of the input. -/
theorem tokpos_tokenLoop_eq_iff (last : UInt8) (text : List UInt8)
    (htokpos : tokpos ≤ parserTotalArgsSize) (s : Scanner) :
    ((tokenLoop 0 last text tokpos s).last.isSome ∧
      (tokenLoop 0 last text tokpos s).tokpos = parserTotalArgsSize) ↔
    ∃ t, plainText s.input = some t ∧ tokpos + t.length = parserTotalArgsSize := by
  -- one more character is stored
  have hstored {tokpos : Nat} {c : UInt8} {t? : Option (List UInt8)} :
      (∃ t, t? = some t ∧ tokpos + 1 + t.length = parserTotalArgsSize) ↔
        ∃ t, t?.map (c :: ·) = some t ∧ tokpos + t.length = parserTotalArgsSize := by
    cases t? with
    | none => simp
    | some t =>
      simp only [Option.some.injEq, exists_eq_left', Option.map_some, List.length_cons]
      omega
  obtain ⟨delimiter, hdelimiter⟩ : ∃ delimiter : UInt8, delimiter = 0 := ⟨0, rfl⟩
  rw [← hdelimiter]
  fun_induction tokenLoop delimiter last text tokpos s
  case case1 => simp [plainText]
  case case2 hfull =>
    refine ⟨fun h => absurd h.1 (by simp), ?_⟩
    rintro ⟨t, ht, hlength⟩
    have hpos := List.length_pos_iff.mpr (plainText_ne_nil ht)
    omega
  case case3 hc _ => simp [hdelimiter] at hc
  case case4 hroom _ hstop =>
    rw [plainText_stop hstop]
    simp only [reduceCtorEq, false_and, exists_false, iff_false, not_and]
    omega
  case case5 hne _ _ _ => exact absurd hdelimiter hne
  case case6 rest _ _ hroom hescape _ _ _ =>
    rw [plainText_escape_none (by simp [hescape])]
    simp only [reduceCtorEq, false_and, exists_false, iff_false, not_and]
    omega
  case case7 hroom _ _ hescape _ _ ih =>
    rw [plainText_escape hescape]
    exact Iff.trans (ih (by omega)) hstored
  case case8 hescape _ _ =>
    rw [plainText_escape_none (by simp [hescape])]
    simp
  case case9 hclose => simp [hdelimiter] at hclose
  case case10 c rest _ _ hroom _ hstop hbackslash _ ih =>
    rw [plainText_char hstop hbackslash]
    exact Iff.trans (ih (by omega)) hstored

/-! ## A token -/

def finishToken (delimiter : UInt8) (scan : TokenScan) : Option (List UInt8) × Nat × Scanner :=
  match scan.last with
  | none => (none, scan.tokpos, scan.scanner)
  | some last =>
    if delimiter ≠ 0 ∧ last ≠ delimiter then
      (none, scan.tokpos, { scan.scanner with
        log := scan.scanner.log ++ [(scan.scanner.line, .missingClosingQuote delimiter)] })
    else if scan.text ≠ [] ∨ delimiter ≠ 0 then (some scan.text, scan.tokpos + 1, scan.scanner)
    else (none, scan.tokpos, scan.scanner)

theorem getToken_eq (tokpos : Nat) (s : Scanner) :
    getToken tokpos s = finishToken s.delimiterOf (scanToken tokpos s) := rfl

theorem finishToken_some {scan : TokenScan} (h : (finishToken delimiter scan).1 = some text) :
    text = scan.text ∧ scan.last.isSome ∧ (delimiter ≠ 0 → scan.last = some delimiter) ∧
      (finishToken delimiter scan).2.1 = scan.tokpos + 1 := by
  unfold finishToken at h ⊢
  split at h
  · cases h
  next last hlast =>
    split_ifs at h with hopen htext
    cases h
    refine ⟨rfl, by rw [hlast]; rfl, fun hdelimiter => ?_, by rw [if_neg hopen, if_pos htext]⟩
    rw [hlast]
    by_contra hne
    exact hopen ⟨hdelimiter, fun heq => hne (heq ▸ rfl)⟩

theorem finishToken_none {scan : TokenScan} (h : (finishToken delimiter scan).1 = none) :
    (finishToken delimiter scan).2.1 = scan.tokpos ∧
      (delimiter = 0 → scan.last = none ∨ scan.text = []) := by
  unfold finishToken at h ⊢
  split at h
  next hlast => exact ⟨rfl, fun _ => .inl hlast⟩
  next last hlast =>
    split_ifs at h with hopen htext
    · rw [if_pos hopen]
      exact ⟨rfl, fun hdelimiter => absurd hdelimiter hopen.1⟩
    · rw [if_neg hopen, if_neg htext]
      exact ⟨rfl, fun _ => .inr (by_contra fun hne => htext (.inl hne))⟩

theorem scanToken_tokpos (tokpos : Nat) (s : Scanner) :
    (scanToken tokpos s).tokpos = tokpos + (scanToken tokpos s).text.length :=
  tokpos_tokenLoop s.delimiterOf 0 [] tokpos _

theorem delimiterOf_eq_zero :
    s.delimiterOf = 0 ↔ isQuote (s.input.headD 0) = false := by
  unfold delimiterOf
  split_ifs with hquote
  · have hne := (isQuote_spec hquote).2.2
    exact ⟨fun h => absurd h hne, fun h => absurd (h.symm.trans hquote) (by decide)⟩
  · exact ⟨fun _ => Bool.eq_false_iff.mpr hquote, fun _ => rfl⟩

theorem scanToken_of_plain (h : isQuote (s.input.headD 0) = false) (tokpos : Nat) :
    scanToken tokpos s = tokenLoop 0 0 [] tokpos s := by
  rw [scanToken, delimiterOf_eq_zero.mpr h, if_neg (by rw [h]; decide)]

theorem storesWithin_of_not_fills (htokpos : tokpos ≤ parserTotalArgsSize)
    (h : ¬ FillsBuffer tokpos s.input) :
    StoresWithin tokpos s ∧ (getToken tokpos s).2.1 ≤ parserTotalArgsSize := by
  have hcount := scanToken_tokpos tokpos s
  have hle : (scanToken tokpos s).tokpos ≤ parserTotalArgsSize :=
    tokpos_tokenLoop_le _ _ _ htokpos _
  have hchars : ∀ store ∈ (scanToken tokpos s).text.zipIdx tokpos,
      store.2 < parserTotalArgsSize := by
    intro store hstore
    have hlt := (List.mem_zipIdx (x := store.1) (i := store.2) hstore).2.1
    omega
  cases htoken : (getToken tokpos s).1 with
  | none =>
    refine ⟨⟨?_, fun text htext => ?_⟩, ?_⟩
    · simpa [tokenStores, htoken] using hchars
    · rw [htoken] at htext
      cases htext
    · rw [getToken_eq] at htoken ⊢
      rw [(finishToken_none htoken).1]
      exact hle
  | some text =>
    have hfinish := htoken
    rw [getToken_eq] at hfinish
    obtain ⟨rfl, hlast, hclosed, hnext⟩ := finishToken_some hfinish
    have hlt : (scanToken tokpos s).tokpos < parserTotalArgsSize := by
      cases hquote : isQuote (s.input.headD 0) with
      | true =>
        have hdelimiter : s.delimiterOf = s.input.headD 0 := if_pos hquote
        have hne := (isQuote_spec hquote).2.2
        rw [hdelimiter] at hclosed
        rw [scanToken, hdelimiter] at hclosed ⊢
        exact tokpos_tokenLoop_lt_of_closed hquote (Ne.symm hne) (hclosed hne)
      | false =>
        refine Nat.lt_of_le_of_ne hle fun heq => h ⟨hquote, ?_⟩
        rw [scanToken_of_plain hquote] at hlast heq
        exact (tokpos_tokenLoop_eq_iff 0 [] htokpos s).mp ⟨hlast, heq⟩
    have hstores : tokenStores tokpos s = (scanToken tokpos s).text.zipIdx tokpos ++
        [(0, (scanToken tokpos s).tokpos)] := by
      rw [tokenStores, htoken]
      rfl
    rw [StoresWithin, htoken, hstores]
    refine ⟨⟨?_, ?_⟩, ?_⟩
    · intro store hstore
      obtain hstore | hstore := List.mem_append.mp hstore
      · exact hchars store hstore
      · rw [List.mem_singleton.mp hstore]
        exact hlt
    · intro text htext
      cases htext
      rw [← hcount]
      exact ⟨hlt, List.mem_append_right _ List.mem_cons_self⟩
    · rw [getToken_eq, hnext]
      exact hlt

theorem not_storesWithin_of_fills (hinput : s.input ≠ [])
    (h : FillsBuffer tokpos s.input) : ¬ StoresWithin tokpos s := by
  intro hwithin
  obtain ⟨hquote, text, htext, hlength⟩ := h
  obtain ⟨c, rest, hcons⟩ := List.exists_cons_of_ne_nil hinput
  have hpos := List.length_pos_iff.mpr (plainText_ne_nil (hcons ▸ htext))
  obtain ⟨hlast, hfull⟩ :=
    (tokpos_tokenLoop_eq_iff 0 [] (by omega) s).mpr ⟨text, htext, hlength⟩
  rw [← scanToken_of_plain hquote] at hlast hfull
  have hcount := scanToken_tokpos tokpos s
  cases htoken : (getToken tokpos s).1 with
  | none =>
    rw [getToken_eq] at htoken
    obtain hnone | hempty := (finishToken_none htoken).2 (delimiterOf_eq_zero.mpr hquote)
    · rw [hnone] at hlast
      cases hlast
    · rw [hempty, List.length_nil] at hcount
      omega
  | some text' =>
    have hlt := (hwithin.2 text' htoken).1
    rw [getToken_eq] at htoken
    obtain ⟨rfl, -⟩ := finishToken_some htoken
    omega

end Scanner

/-! ## Statements -/

namespace Parser

open Scanner

/-- The call of `get_token()` in the next round, if there is one: the position in the token buffer
and what is left of the input. -/
def tokenCall (s : ParserState) : Option (Nat × Scanner) :=
  match s.phase with
  | .statement => if s.scanner.skipWs.input = [] then none else some (0, s.scanner.skipWs)
  | .arguments | .skipping =>
    if s.scanner.skipLineWs.1 then some (s.tokpos, s.scanner.skipLineWs.2) else none
  | .finished => none

variable {commands : ParserCommands} {s : ParserState}

theorem input_tokenCall {tokpos : Nat} {scanner : Scanner}
    (h : tokenCall s = some (tokpos, scanner)) :
    scanner.input ≠ [] := by
  have hline (hfound : s.scanner.skipLineWs.1 = true) : s.scanner.skipLineWs.2.input ≠ [] := by
    obtain ⟨c, rest, hinput, -⟩ := skipLineWs_found hfound
    simp [hinput]
  unfold tokenCall at h
  split at h
  · split_ifs at h with hinput
    obtain ⟨-, rfl⟩ := Prod.mk.inj (Option.some.inj h)
    exact hinput
  · split_ifs at h with hfound
    obtain ⟨-, rfl⟩ := Prod.mk.inj (Option.some.inj h)
    exact hline hfound
  · split_ifs at h with hfound
    obtain ⟨-, rfl⟩ := Prod.mk.inj (Option.some.inj h)
    exact hline hfound
  · cases h

theorem tokpos_round {s' : ParserState} (h : Round commands s s') :
    s'.tokpos = (tokenCall s).elim s.tokpos fun call => (getToken call.1 call.2).2.1 := by
  cases h with
  | finish hphase hinput => simp [tokenCall, hphase, hinput]
  | badCommand hphase hinput htoken | command hphase hinput htoken | unknown hphase hinput htoken =>
    simp [tokenCall, hphase, hinput, htoken]
  | argument hphase hfound htoken | tooMany hphase hfound htoken =>
    simp [tokenCall, hphase, hfound, htoken]
  | invoked hphase hnone | rejected hphase hnone => simp [tokenCall, hphase, hnone]
  | skipped hphase hfound htoken => simp [tokenCall, hphase, hfound, htoken]
  | skippedAll hphase hnone => simp [tokenCall, hphase, hnone]
  | stay hphase => simp [tokenCall, hphase]

def RoundStoresWithin (s : ParserState) : Prop :=
  ∀ tokpos scanner, tokenCall s = some (tokpos, scanner) → StoresWithin tokpos scanner

/-- In the next round, a token without quotes fills the buffer and ends with the input. -/
def RoundFillsBuffer (s : ParserState) : Prop :=
  ∃ tokpos scanner, tokenCall s = some (tokpos, scanner) ∧ FillsBuffer tokpos scanner.input

theorem tokpos_tokenCall_le {tokpos : Nat} {scanner : Scanner}
    (h : tokenCall s = some (tokpos, scanner)) : tokpos ≤ s.tokpos := by
  unfold tokenCall at h
  split at h
  · split_ifs at h
    obtain ⟨rfl, -⟩ := Prod.mk.inj (Option.some.inj h)
    exact Nat.zero_le _
  · split_ifs at h
    obtain ⟨rfl, -⟩ := Prod.mk.inj (Option.some.inj h)
    exact Nat.le_refl _
  · split_ifs at h
    obtain ⟨rfl, -⟩ := Prod.mk.inj (Option.some.inj h)
    exact Nat.le_refl _
  · cases h

/-- Nothing is stored behind the token buffer while an input is parsed exactly if no token without
quotes fills the buffer and ends with the input. -/
theorem parse_storesWithin_iff (commands : ParserCommands) (buffer : List UInt8) :
    (∀ n, RoundStoresWithin (parse commands buffer n)) ↔
      ∀ n, ¬ RoundFillsBuffer (parse commands buffer n) := by
  constructor
  · rintro hwithin n ⟨tokpos, scanner, hcall, hfills⟩
    exact not_storesWithin_of_fills (input_tokenCall hcall) hfills (hwithin n tokpos scanner hcall)
  · intro hnever
    -- the position stays within the buffer
    have htokpos (n : Nat) : (parse commands buffer n).tokpos ≤ parserTotalArgsSize := by
      induction n with
      | zero => exact Nat.zero_le _
      | succ n ih =>
        rw [parse_succ, tokpos_round round_step]
        cases hcall : tokenCall (parse commands buffer n) with
        | none => exact ih
        | some call =>
          have hle := Nat.le_trans (tokpos_tokenCall_le hcall) ih
          exact (storesWithin_of_not_fills hle fun hfills => hnever n ⟨_, _, hcall, hfills⟩).2
    intro n tokpos scanner hcall
    have hle := Nat.le_trans (tokpos_tokenCall_le hcall) (htokpos n)
    exact (storesWithin_of_not_fills hle fun hfills => hnever n ⟨_, _, hcall, hfills⟩).1

theorem plainText_replicate {c : UInt8} (hstop : ¬(isBlank c || isLineEnd c || c = asc '#'))
    (hc : c ≠ asc '\\') (n : Nat) :
    plainText (List.replicate n c) = some (List.replicate n c) := by
  induction n with
  | zero => rw [List.replicate_zero, plainText]
  | succ n ih => rw [List.replicate_succ, plainText_char hstop hc, ih, Option.map_some]

/-- The zero byte of a command of 4096 letters, with nothing behind it, is stored behind the
buffer. -/
theorem zero_byte_behind_buffer :
    ¬ ∀ n, RoundStoresWithin
      (parse ⟨fun _ => false, fun _ _ => true⟩ (List.replicate 4096 (asc 'a')) n) := by
  obtain ⟨rest, hrest⟩ : ∃ rest, List.replicate 4096 (asc 'a') = asc 'a' :: rest :=
    ⟨_, List.replicate_succ⟩
  intro hwithin
  have hskip := skipWs_eq (s := ⟨List.replicate 4096 (asc 'a'), 1, []⟩) hrest (by decide)
  have hcall : tokenCall (start (List.replicate 4096 (asc 'a'))) =
      some (0, ⟨List.replicate 4096 (asc 'a'), 1, []⟩) := by
    simp only [tokenCall, start, hskip]
    rw [if_neg (by simp [hrest])]
  refine not_storesWithin_of_fills (input_tokenCall hcall) ?_ (hwithin 0 _ _ hcall)
  have hquote : isQuote (asc 'a') = false := by decide
  refine ⟨by rw [hrest]; exact hquote, _, plainText_replicate (by decide) (by decide) 4096, ?_⟩
  rw [List.length_replicate, parserTotalArgsSize]

end Parser

end CyberCache
