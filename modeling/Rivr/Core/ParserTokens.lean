import Rivr.Core.Parser

/-!
# What the token parsers do on any text

The token parsers of `parser.rs` look no further than the next double quote that they leave, and
come to an end. The one place where a slice can be off a character boundary is inside a string
literal: by characters its loop is `litBody` (`parseStringLoop_apply`), which panics on a character
outside ASCII (`litBody_of_not_isAscii`).
-/

open ByteParser Utf8

namespace Rivr.Core

/-- The parser looks no further than the next double quote that it leaves. -/
abbrev SafeParse {α : Type} (f : Parse α) : Prop := Safe '"' ParseMsg.unterminatedString f

variable {α : Type} {uni : Char → Bool}

/-! ### Scanners -/

theorem uniform_of_lt {P : UInt8 → Bool} (h : ∀ b, P b = true → b.toNat < 0x80) : Uniform P := by
  refine ⟨false, fun b hb => ?_⟩
  rw [← Bool.not_eq_true]
  intro hP
  have := h b hP
  omega

theorem isAsciiWhitespace_lt (b : UInt8) (h : isAsciiWhitespace b = true) : b.toNat < 0x80 := by
  simp only [isAsciiWhitespace, Bool.or_eq_true, beq_iff_eq] at h
  obtain (((rfl | rfl) | rfl) | rfl) | rfl := h <;> decide

theorem isAsciiDigit_lt (b : UInt8) (h : isAsciiDigit b = true) : b.toNat < 0x80 := by
  simp only [isAsciiDigit, Bool.and_eq_true, decide_eq_true_eq, UInt8.le_iff_toNat_le] at h
  exact Nat.lt_of_le_of_lt h.2 (by decide)

theorem isIdentByte_lt (b : UInt8) (h : isIdentByte b = true) : b.toNat < 0x80 := by
  simp only [isIdentByte, Bool.or_eq_true, Bool.and_eq_true, decide_eq_true_eq, beq_iff_eq,
    UInt8.le_iff_toNat_le] at h
  obtain ((h | h) | h) | rfl := h
  · exact isAsciiDigit_lt b h
  · exact Nat.lt_of_le_of_lt h.2 (by decide)
  · exact Nat.lt_of_le_of_lt h.2 (by decide)
  · decide

theorem isDottedByte_lt (b : UInt8) (h : isDottedByte b = true) : b.toNat < 0x80 := by
  simp only [isDottedByte, Bool.or_eq_true, beq_iff_eq] at h
  obtain h | rfl := h
  · exact isIdentByte_lt b h
  · decide

theorem isFloatByte_lt (b : UInt8) (h : isFloatByte b = true) : b.toNat < 0x80 := by
  simp only [isFloatByte, Bool.or_eq_true, beq_iff_eq] at h
  obtain h | rfl := h
  · exact isAsciiDigit_lt b h
  · decide

theorem reads_skipWhile {P : UInt8 → Bool} (hP : Uniform P) :
    Reads (skipWhile P) fun s => ((), (s.takeWhile (onChar P)).length) :=
  reads_takeWhile hP (a := fun _ => ()) fun _ _ => rfl

theorem safe_skipWhile {P : UInt8 → Bool} (hP : Uniform P) : SafeParse (skipWhile P) :=
  .scan _ (scans_takeWhile (onChar P) fun _ => ()) (reads_skipWhile hP)

theorem reads_sliceWhile {P : UInt8 → Bool} (h : ∀ b, P b = true → b.toNat < 0x80) :
    Reads (sliceWhile P) fun s =>
      (utf8 (s.takeWhile (onChar P)), (s.takeWhile (onChar P)).length) := by
  have hP := uniform_of_lt h
  refine reads_takeWhile hP (a := id) fun pos s => ?_
  have hboundary : isCharBoundary ((utf8 s).dropWhile P) = true := by
    rw [dropWhile_utf8 hP]
    exact isCharBoundary_utf8 _
  rw [sliceWhile, isCharBoundary_utf8, hboundary]
  rfl

theorem safe_sliceWhile {P : UInt8 → Bool} (h : ∀ b, P b = true → b.toNat < 0x80) :
    SafeParse (sliceWhile P) :=
  .scan _ (scans_takeWhile (onChar P) fun s => utf8 s) (reads_sliceWhile h)

theorem reads_peek : Reads peek fun s => (s.head?.getD '\x00', 0) := by
  intro pos s
  rw [peek, isCharBoundary_utf8, nextChar_utf8, List.headD_eq_head?_getD]
  rfl

theorem safe_peek : SafeParse peek := .scan _ (scans_head fun c => c.getD '\x00') reads_peek

theorem reads_isEnd : Reads isEnd fun s => (s.head?.isNone, 0) := by
  intro pos s
  match s with
  | [] => rfl
  | c :: s =>
    have hne : (utf8 (c :: s)).isEmpty = false := by
      simpa using utf8_ne_nil (List.cons_ne_nil c s)
    rw [isEnd, hne]
    rfl

theorem safe_isEnd : SafeParse isEnd := .scan _ (scans_head fun c => c.isNone) reads_isEnd

/-! ### Words -/

/-- A word of the language: ASCII, and with a double quote at its end at most. -/
structure IsWord (w : String) : Prop where
  ascii : ∀ c ∈ w.toList, IsAscii c
  quote : '"' ∉ w.toList.dropLast

theorem isWord_lparen : IsWord "(" := ⟨by decide, by decide⟩
theorem isWord_rparen : IsWord ")" := ⟨by decide, by decide⟩
theorem isWord_comma : IsWord "," := ⟨by decide, by decide⟩
theorem isWord_equals : IsWord "=" := ⟨by decide, by decide⟩
theorem isWord_semicolon : IsWord ";" := ⟨by decide, by decide⟩
theorem isWord_at : IsWord "@" := ⟨by decide, by decide⟩

theorem reads_startsWith {w : String} (hw : IsWord w) :
    Reads (startsWith w) fun s => (w.toList.isPrefixOf s, 0) := by
  intro pos s
  rw [startsWith, isCharBoundary_utf8, utf8_isPrefixOf hw.ascii]
  rfl

theorem safe_startsWith {w : String} (hw : IsWord w) : SafeParse (startsWith w) := by
  refine .scan _ ?_ (reads_startsWith hw)
  intro s t h
  have hq : '"' ∈ s := by
    rcases h with h | h <;> exact h
  dsimp only
  rw [isPrefixOf_append_of_mem hw.quote hq]

theorem safe_failCtx {n : ℕ} {msg : String → ParseMsg}
    (h : ∀ ctx, msg ctx ≠ .unterminatedString) : SafeParse (failCtx n msg : Parse α) := by
  have heq : ∀ pos s, (failCtx n msg : Parse α) pos (utf8 s) =
      fail (msg (String.ofList (charsTake n (utf8 s)))) pos (utf8 s) := fun pos s => by
    rw [failCtx, isCharBoundary_utf8]
    rfl
  exact {
    consumes := fun hok => by
      rw [heq] at hok
      exact nomatch hok
    stable := fun _ => by
      simp only [heq]
      exact ⟨(nomatch ·), (nomatch ·)⟩
    opened := fun herr => by
      rw [heq] at herr
      exact absurd (Outcome.err.inj herr).2 (h _)
    panics := fun hpanic => by
      rw [heq] at hpanic
      exact nomatch hpanic
    halts := fun pos s hhang => by
      rw [heq] at hhang
      exact nomatch hhang }

/-- What follows the word on a text that starts with it. -/
theorem drop_utf8_of_isPrefixOf {w s : List Char} (h : w.isPrefixOf s = true) :
    (utf8 s).drop (utf8 w).length = utf8 (s.drop w.length) := by
  obtain ⟨t, rfl⟩ := List.isPrefixOf_iff_prefix.mp h
  rw [utf8_append, List.drop_left, List.drop_left]

theorem take_of_isPrefixOf {w s : List Char} (h : w.isPrefixOf s = true) :
    s.take w.length = w := by
  obtain ⟨t, rfl⟩ := List.isPrefixOf_iff_prefix.mp h
  rw [List.take_left]

theorem reads_skipStr {w : String} (hw : IsWord w) :
    Reads (skipStr w) fun s =>
      if w.toList.isPrefixOf s then (true, w.toList.length) else (false, 0) := by
  intro pos s
  rw [skipStr, isCharBoundary_utf8, utf8_isPrefixOf hw.ascii]
  by_cases h : w.toList.isPrefixOf s
  · simp only [h, Bool.not_true, Bool.false_eq_true, if_false, if_true,
      drop_utf8_of_isPrefixOf h, take_of_isPrefixOf h]
  · simp [h]

theorem safe_skipStr {w : String} (hw : IsWord w) : SafeParse (skipStr w) := by
  refine .scan _ ?_ (reads_skipStr hw)
  intro s t h
  have hq : '"' ∈ s := by
    rcases h with h | h <;> exact List.mem_of_mem_drop h
  dsimp only
  rw [isPrefixOf_append_of_mem hw.quote hq]

/-- The word is followed by a character that would make it longer. -/
def goesOn (uni : Char → Bool) (w s : List Char) : Bool :=
  (w.getLast?.map (isWordChar uni)).getD false && isWordChar uni ((s.drop w.length).headD '\x00')

/-- What comes after a double quote does not make a word longer. -/
theorem goesOn_append {w s t : List Char} (hw : '"' ∉ w.dropLast) (hpre : w.isPrefixOf s = true)
    (hq : '"' ∈ s) : goesOn uni w (s ++ t) = goesOn uni w s := by
  obtain ⟨s', rfl⟩ := List.isPrefixOf_iff_prefix.mp hpre
  rw [goesOn, goesOn, List.append_assoc, List.drop_left, List.drop_left]
  match s', hq with
  | c :: s', _ => rfl
  | [], hq =>
    -- the word is the text up to the quote, and ends with it
    rw [List.append_nil] at hq
    have hne : w ≠ [] := List.ne_nil_of_mem hq
    have hlast : w.getLast? = some '"' := by
      rw [List.getLast?_eq_some_getLast hne]
      rw [← List.dropLast_append_getLast hne, List.mem_append, List.mem_singleton] at hq
      rw [← hq.resolve_left hw]
    have hword : isWordChar uni '"' = false := rfl
    simp [hlast, hword]

/-- What `eatHere` sees in the characters. -/
def eatScan (uni : Char → Bool) (kw : String) (s : List Char) : Bool × ℕ :=
  if kw.toList.isPrefixOf s && !goesOn uni kw.toList s then (true, kw.toList.length)
  else (false, 0)

theorem reads_eatHere {kw : String} (hkw : IsWord kw) :
    Reads (eatHere uni kw) (eatScan uni kw) := by
  intro pos s
  dsimp only [eatHere, eatScan]
  rw [isCharBoundary_utf8, utf8_isPrefixOf hkw.ascii]
  by_cases hpre : kw.toList.isPrefixOf s
  · rw [drop_utf8_of_isPrefixOf hpre, isCharBoundary_utf8, nextChar_utf8, ← goesOn]
    by_cases hon : goesOn uni kw.toList s
    · simp [hpre, hon]
    · simp [hpre, hon, take_of_isPrefixOf hpre]
  · simp [hpre]

theorem safe_eatHere {kw : String} (hkw : IsWord kw) : SafeParse (eatHere uni kw) := by
  refine .scan _ ?_ (reads_eatHere hkw)
  intro s t h
  have hq : '"' ∈ s := by
    rcases h with h | h <;> exact List.mem_of_mem_drop h
  rw [eatScan, eatScan, isPrefixOf_append_of_mem hkw.quote hq]
  by_cases hpre : kw.toList.isPrefixOf s
  · rw [goesOn_append hkw.quote hpre hq]
  · simp [hpre]

/-! ### Whitespace -/

theorem isWord_comment : IsWord "//" := ⟨by decide, by decide⟩

theorem uniform_ne_newline : Uniform fun b => b != 10 := by
  refine ⟨true, fun b hb => ?_⟩
  rw [bne_iff_ne]
  rintro rfl
  exact absurd hb (by decide)

theorem safe_skipWsStep (u : Unit) : SafeParse (skipWsStep u) :=
  (safe_skipWhile (uniform_of_lt isAsciiWhitespace_lt)).bind fun _ =>
    (safe_startsWith isWord_comment).bind fun _ =>
      .ite ((safe_skipWhile uniform_ne_newline).bind fun _ => .pure _) (.pure _)

/-- A comment has its two slashes at least. -/
theorem advances_skipWsStep (u : Unit) : Advances (skipWsStep u) := by
  refine Strict.bind_right (safe_skipWhile (uniform_of_lt isAsciiWhitespace_lt)).toLocal
    (fun _ => ((safe_startsWith isWord_comment).bind fun _ =>
      .ite ((safe_skipWhile uniform_ne_newline).bind fun _ => .pure _) (.pure _)).toLocal)
    fun _ pos pos' s a r h hmore => ?_
  obtain ⟨comment, mid, rest, hstart, hnext⟩ := bind_eq_ok.mp h
  rw [startsWith, isCharBoundary_utf8, if_pos rfl, Outcome.ok.injEq] at hstart
  obtain ⟨hpre, rfl, rfl⟩ := hstart
  match comment with
  | false =>
    obtain ⟨rfl, -⟩ := Outcome.ok.inj hnext
    exact absurd hmore (by decide)
  | true =>
    obtain ⟨t, ht⟩ := List.isPrefixOf_iff_prefix.mp hpre
    obtain ⟨_, mid, rest, hskip, hdone⟩ := bind_eq_ok.mp hnext
    obtain ⟨-, rfl, -⟩ := Outcome.ok.inj hskip
    obtain ⟨-, rfl, -⟩ := Outcome.ok.inj hdone
    have hslash : utf8 "//".toList = [47, 47] := by decide
    rw [← ht, hslash]
    simp

/-- `skip_ws` skips the whitespace and the comments of any text. -/
theorem safe_skipWs : SafeParse skipWs := .loop safe_skipWsStep advances_skipWsStep ()

theorem safe_atEnd : SafeParse atEnd := safe_skipWs.bind fun _ => safe_isEnd

theorem safe_eat {kw : String} (hkw : IsWord kw) : SafeParse (eat uni kw) :=
  safe_skipWs.bind fun _ => safe_eatHere hkw

/-- The error of `expect`. -/
theorem safe_notFound (kw : String) :
    SafeParse (skipWs >>= fun _ => failCtx 12 (.expected kw) : Parse α) :=
  safe_skipWs.bind fun _ => safe_failCtx fun _ => (nomatch ·)

theorem safe_expect {kw : String} (hkw : IsWord kw) : SafeParse (expect uni kw) :=
  (safe_eat hkw).bind fun _ => .ite (.pure _) (safe_notFound kw)

/-- A word that is eaten is read. -/
theorem strict_eat {kw : String} (hkw : IsWord kw) (hne : kw.toList ≠ []) :
    Strict (fun b => b = true) (eat uni kw) := by
  refine Strict.bind_right safe_skipWs.toLocal (fun _ => (safe_eatHere hkw).toLocal)
    fun _ pos pos' s b r h hb => ?_
  rw [reads_eatHere hkw, eatScan] at h
  split_ifs at h with hpre
  · obtain ⟨-, rfl, -⟩ := Outcome.ok.inj h
    rw [Bool.and_eq_true] at hpre
    have hlen := List.length_pos_of_ne_nil (utf8_ne_nil hne)
    rw [take_of_isPrefixOf hpre.1]
    omega
  · obtain ⟨rfl, -⟩ := Outcome.ok.inj h
    exact absurd hb (by decide)

theorem strict_failCtx {P : α → Prop} {n : ℕ} {msg : String → ParseMsg} :
    Strict P (failCtx n msg : Parse α) := by
  intro pos pos' s a r h
  rw [failCtx] at h
  split_ifs at h

/-- A word that is there is read. -/
theorem strict_expect {kw : String} (hkw : IsWord kw) (hne : kw.toList ≠ []) :
    Strict (fun _ => True) (expect uni kw) :=
  Strict.bind (safe_eat hkw).toLocal (strict_eat hkw hne)
    (fun _ => Safe.toLocal (.ite (.pure _) (safe_notFound kw)))
    fun b hb => by
      rw [if_neg hb]
      exact Strict.bind_right safe_skipWs.toLocal
        (fun _ => Safe.toLocal (safe_failCtx (by nofun))) fun _ => strict_failCtx

theorem strict_skipStr {w : String} (hne : w.toList ≠ []) :
    Strict (fun b => b = true) (skipStr w) := by
  intro pos pos' s b r h hb
  rw [skipStr, isCharBoundary_utf8, if_neg (by decide)] at h
  have hlen := List.length_pos_of_ne_nil (utf8_ne_nil hne)
  split_ifs at h
  · obtain ⟨-, rfl, -⟩ := Outcome.ok.inj h
    omega
  · obtain ⟨rfl, -⟩ := Outcome.ok.inj h
    exact absurd hb (by decide)

/-! ### Tokens -/

theorem safe_parseIdent : SafeParse parseIdent :=
  safe_skipWs.bind fun _ => (safe_sliceWhile isIdentByte_lt).bind fun _ =>
    .ite (.fail (nomatch ·)) (.pure _)

theorem safe_parseUint : SafeParse parseUint :=
  safe_skipWs.bind fun _ => Safe.getPos.bind fun _ =>
    (safe_sliceWhile isAsciiDigit_lt).bind fun _ =>
      .ite (.fail (nomatch ·)) (.ite (.pure _) (.failAt (by nofun) _))

theorem safe_parsePositiveUint {what : String} : SafeParse (parsePositiveUint what) :=
  safe_parseUint.bind fun _ => .ite (.fail (nomatch ·)) (.pure _)

theorem safe_parseFloat : SafeParse parseFloat := by
  refine safe_skipWs.bind fun _ => Safe.getPos.bind fun _ =>
    (safe_sliceWhile isFloatByte_lt).bind fun slice => .ite (.fail (nomatch ·)) ?_
  match parseF64 slice with
  | some value => exact .pure _
  | none => exact .failAt (by nofun) _

theorem safe_readDottedName : SafeParse readDottedName :=
  safe_skipWs.bind fun _ => (safe_sliceWhile isDottedByte_lt).bind fun _ => .pure _

/-! ### String literals -/

/-- The first byte of a character. -/
def firstByte (c : Char) : UInt8 := (String.utf8EncodeChar c).headD 0

/-- The loop of `parse_string` by characters: one outside ASCII that is not escaped is a panic. -/
def litBody (result : List Char) (pos : ℕ) : List Char → Outcome ParseMsg (List Char)
  | [] => .err pos .unterminatedString
  | c :: s =>
    if c = '"' then .ok result (pos + 1) (utf8 s)
    else if c = '\\' then
      match s with
      | [] => .err (pos + 1) (.unknownEscape '\x00')
      | d :: s =>
        match escaped (firstByte d) with
        | some ch => litBody (result ++ [ch]) (pos + 2) s
        | none => .err (pos + 1) (.unknownEscape (Char.ofNat (firstByte d).toNat))
    else if IsAscii c then litBody (result ++ [c]) (pos + 1) s
    else .panic

example : litBody [] 0 ['"'] = .ok [] 1 [] := by
  rw [litBody.eq_def]
  rfl

theorem firstByte_of_isAscii {c : Char} (h : IsAscii c) : firstByte c = UInt8.ofNat c.toNat := by
  rw [firstByte, utf8EncodeChar_of_isAscii h]
  rfl

theorem escaped_lt {b : UInt8} {ch : Char} (h : escaped b = some ch) : b.toNat < 0x80 := by
  rw [escaped] at h
  split_ifs at h with h1 h2 h3 h4
  all_goals subst b; decide

theorem isAscii_of_firstByte_lt {c : Char} (h : (firstByte c).toNat < 0x80) : IsAscii c := by
  by_contra hc
  obtain ⟨b, x, bs, heq, hb, -⟩ := utf8EncodeChar_of_not_isAscii hc
  rw [firstByte, heq, List.headD_cons] at h
  omega

/-- One round on an escape. -/
theorem parseStringStep_escaped {b : UInt8} {ch : Char} (h : escaped b = some ch)
    (result : List Char) (pos : ℕ) (tail : List UInt8) :
    parseStringStep result pos (92 :: b :: tail) = .ok (.inl (result ++ [ch])) (pos + 2) tail := by
  simp [parseStringStep, h]

/-- One round on a byte that is neither a quote nor a backslash. -/
theorem parseStringStep_plain {b : UInt8} (h34 : b ≠ 34) (h92 : b ≠ 92) (result : List Char)
    (pos : ℕ) (tail : List UInt8) :
    parseStringStep result pos (b :: tail) =
      if isCharBoundary (b :: tail) then
        .ok (.inl (result ++ [nextChar (b :: tail)])) (pos + 1) tail
      else .panic := by
  simp [parseStringStep, h34, h92]

/-- After a character outside ASCII the position is inside it. -/
theorem parseStringLoop_of_not_isAscii {c : Char} (hc : ¬IsAscii c) (result : List Char) (pos : ℕ)
    (s : List Char) (n : ℕ) :
    loopN parseStringStep (n + 2) result pos (utf8 (c :: s)) = .panic := by
  obtain ⟨b, x, bs, heq, hb, hbs⟩ := utf8EncodeChar_of_not_isAscii hc
  have hx := hbs x List.mem_cons_self
  have hboundary := isCharBoundary_utf8 (c :: s)
  have hb34 : b ≠ 34 := by rintro rfl; exact absurd hb (by decide)
  have hb92 : b ≠ 92 := by rintro rfl; exact absurd hb (by decide)
  have hx34 : x ≠ 34 := by rintro rfl; exact absurd hx.1 (by decide)
  have hx92 : x ≠ 92 := by rintro rfl; exact absurd hx.1 (by decide)
  have hinside : isCharBoundary (x :: (bs ++ utf8 s)) = false := by
    simp [isCharBoundary, hx.1, hx.2]
  rw [utf8_cons, heq, List.cons_append, List.cons_append] at hboundary ⊢
  rw [loopN_of_more (by rw [parseStringStep_plain hb34 hb92, if_pos hboundary])]
  refine loopN_of_panic ?_
  rw [parseStringStep_plain hx34 hx92, hinside]
  rfl

theorem litBody_escaped {d ch : Char} (h : escaped (firstByte d) = some ch) (result : List Char)
    (pos : ℕ) (s : List Char) :
    litBody result pos ('\\' :: d :: s) = litBody (result ++ [ch]) (pos + 2) s := by
  simp [litBody, h]

theorem litBody_unknown {d : Char} (h : escaped (firstByte d) = none) (result : List Char)
    (pos : ℕ) (s : List Char) : litBody result pos ('\\' :: d :: s) =
      .err (pos + 1) (.unknownEscape (Char.ofNat (firstByte d).toNat)) := by
  simp [litBody, h]

theorem litBody_plain {c : Char} (hquote : c ≠ '"') (hback : c ≠ '\\') (hc : IsAscii c)
    (result : List Char) (pos : ℕ) (s : List Char) :
    litBody result pos (c :: s) = litBody (result ++ [c]) (pos + 1) s := by
  rw [litBody.eq_def]
  simp [hquote, hback, hc]

theorem litBody_quote (result : List Char) (pos : ℕ) (s : List Char) :
    litBody result pos ('"' :: s) = .ok result (pos + 1) (utf8 s) := by
  rw [litBody.eq_def]
  rfl

/-- A character outside ASCII is neither a quote nor a backslash. -/
theorem litBody_of_not_isAscii {c : Char} (hc : ¬IsAscii c) (result : List Char) (pos : ℕ)
    (s : List Char) : litBody result pos (c :: s) = .panic := by
  have hquote : c ≠ '"' := by rintro rfl; exact hc (by decide)
  have hback : c ≠ '\\' := by rintro rfl; exact hc (by decide)
  rw [litBody.eq_def]
  simp [hquote, hback, hc]

/-- With enough fuel the loop is `litBody`. -/
theorem parseStringLoop_apply {n pos : ℕ} {result s : List Char} (hn : (utf8 s).length < n) :
    loopN parseStringStep n result pos (utf8 s) = litBody result pos s := by
  obtain ⟨n, rfl⟩ : ∃ k, n = k + 1 := ⟨n - 1, by omega⟩
  fun_induction litBody result pos s generalizing n with
  | case1 => exact loopN_of_err rfl
  | case2 => exact loopN_of_done rfl
  | case3 => exact loopN_of_err rfl
  | case4 result pos d s ch hch _ ih =>
    -- an escaped character is ASCII, so the step takes exactly two bytes
    have hd : IsAscii d := isAscii_of_firstByte_lt (escaped_lt hch)
    have hbytes : utf8 ('\\' :: d :: s) = 92 :: firstByte d :: utf8 s := by
      rw [utf8_cons, utf8_cons, firstByte_of_isAscii hd, utf8EncodeChar_of_isAscii hd]
      rfl
    rw [hbytes] at hn ⊢
    rw [loopN_of_more (parseStringStep_escaped hch result pos _)]
    simp only [List.length_cons] at hn
    obtain ⟨n, rfl⟩ : ∃ k, n = k + 1 := ⟨n - 1, by omega⟩
    exact ih n (by omega)
  | case5 result pos d s hnone _ =>
    refine loopN_of_err ?_
    obtain ⟨x, bs, heq⟩ := List.exists_cons_of_ne_nil (utf8EncodeChar_ne_nil d)
    have hbytes : utf8 ('\\' :: d :: s) = 92 :: x :: (bs ++ utf8 s) := by
      rw [utf8_cons, utf8_cons, heq]
      rfl
    rw [firstByte, heq, List.headD_cons] at hnone ⊢
    rw [hbytes]
    simp [parseStringStep, hnone]
  | case6 result pos c s hquote hback hc ih =>
    have hbytes : utf8 (c :: s) = UInt8.ofNat c.toNat :: utf8 s := by
      rw [utf8_cons, utf8EncodeChar_of_isAscii hc]
      rfl
    have hne : ∀ d : Char, IsAscii d → c ≠ d → UInt8.ofNat c.toNat ≠ UInt8.ofNat d.toNat := by
      intro d hd hcd h
      have h' := congrArg UInt8.toNat h
      rw [toNat_ofNat_of_isAscii hc, toNat_ofNat_of_isAscii hd, Char.toNat_inj] at h'
      exact hcd h'
    have hboundary := isCharBoundary_utf8 (c :: s)
    have hnext := nextChar_cons c s
    rw [hbytes] at hn hboundary hnext ⊢
    have hstep := parseStringStep_plain (hne '"' (by decide) hquote)
      (hne '\\' (by decide) hback) result pos (utf8 s)
    rw [if_pos hboundary, hnext] at hstep
    rw [loopN_of_more hstep]
    rw [List.length_cons] at hn
    obtain ⟨n, rfl⟩ : ∃ k, n = k + 1 := ⟨n - 1, by omega⟩
    exact ih n (by omega)
  | case7 result pos c s _ _ hc =>
    obtain ⟨b, x, bs, heq, -⟩ := utf8EncodeChar_of_not_isAscii hc
    have hlen : 2 ≤ (utf8 (c :: s)).length := by
      rw [utf8_cons, heq]
      simp
    obtain ⟨n, rfl⟩ : ∃ k, n = k + 1 := ⟨n - 1, by omega⟩
    exact parseStringLoop_of_not_isAscii hc result pos s n

/-- An escape does not end the literal. -/
example : (loop parseStringStep [] 0 (utf8 "a\\\"x\"".toList)).returns = true := by decide +kernel

theorem length_utf8_of_isAscii {c : Char} (hc : IsAscii c) (s : List Char) :
    (utf8 (c :: s)).length = (utf8 s).length + 1 := by
  rw [utf8_cons, utf8EncodeChar_of_isAscii hc, List.length_append, List.length_singleton,
    Nat.add_comm]

theorem litBody_consumes {result s a : List Char} {pos pos' : ℕ} {r : List UInt8}
    (h : litBody result pos s = .ok a pos' r) :
    ∃ p s', p ≠ [] ∧ s = p ++ s' ∧ r = utf8 s' ∧ pos' = pos + (utf8 p).length := by
  fun_induction litBody result pos s with
  | case1 | case3 | case5 | case7 => exact nomatch h
  | case2 =>
    obtain ⟨-, rfl, rfl⟩ := Outcome.ok.inj h
    exact ⟨['"'], _, List.cons_ne_nil _ _, rfl, rfl, rfl⟩
  | case4 result pos d s ch hch _ ih =>
    obtain ⟨p, s', -, rfl, rfl, rfl⟩ := ih h
    have hd : IsAscii d := isAscii_of_firstByte_lt (escaped_lt hch)
    refine ⟨'\\' :: d :: p, s', List.cons_ne_nil _ _, rfl, rfl, ?_⟩
    rw [length_utf8_of_isAscii (by decide), length_utf8_of_isAscii hd]
    omega
  | case6 result pos c s _ _ hc ih =>
    obtain ⟨p, s', -, rfl, rfl, rfl⟩ := ih h
    refine ⟨c :: p, s', List.cons_ne_nil _ _, rfl, rfl, ?_⟩
    rw [length_utf8_of_isAscii hc]
    omega

/-- A literal that ends is read the same way whatever comes after it. -/
theorem litBody_append {result s s' a : List Char} {pos pos' : ℕ}
    (h : litBody result pos s = .ok a pos' (utf8 s')) (t : List Char) :
    litBody result pos (s ++ t) = .ok a pos' (utf8 (s' ++ t)) := by
  fun_induction litBody result pos s with
  | case1 | case3 | case5 | case7 => exact nomatch h
  | case2 result pos s =>
    obtain ⟨rfl, rfl, hs⟩ := Outcome.ok.inj h
    obtain rfl := utf8_injective hs
    exact litBody_quote result pos (s ++ t)
  | case4 result pos d s ch hch _ ih =>
    rw [List.cons_append, List.cons_append, litBody_escaped hch]
    exact ih h
  | case6 result pos c s hquote hback hc ih =>
    rw [List.cons_append, litBody_plain hquote hback hc]
    exact ih h

/-- A literal that ends before the text that is left does not need what comes after. -/
theorem litBody_of_append {result s s' t a : List Char} {pos pos' : ℕ} (hs' : s' ≠ [])
    (h : litBody result pos (s ++ t) = .ok a pos' (utf8 (s' ++ t))) :
    litBody result pos s = .ok a pos' (utf8 s') := by
  have hlen : 0 < s'.length := List.length_pos_of_ne_nil hs'
  fun_induction litBody result pos s with
  | case1 result pos =>
    obtain ⟨p, s'', -, ht, hs, -⟩ := litBody_consumes h
    obtain rfl := utf8_injective hs
    have := congrArg List.length ht
    simp only [List.nil_append, List.length_append] at this
    omega
  | case2 result pos s =>
    rw [List.cons_append, litBody_quote] at h
    obtain ⟨rfl, rfl, hs⟩ := Outcome.ok.inj h
    obtain rfl := List.append_cancel_right (utf8_injective hs)
    rfl
  | case3 result pos _ =>
    obtain ⟨p, s'', hp, ht, hs, -⟩ := litBody_consumes h
    obtain rfl := utf8_injective hs
    have hplen : 0 < p.length := List.length_pos_of_ne_nil hp
    have := congrArg List.length ht
    simp only [List.length_append, List.length_singleton] at this
    omega
  | case4 result pos d s ch hch _ ih =>
    rw [List.cons_append, List.cons_append, litBody_escaped hch] at h
    exact ih h
  | case5 result pos d s hnone _ =>
    rw [List.cons_append, List.cons_append, litBody_unknown hnone] at h
    exact nomatch h
  | case6 result pos c s hquote hback hc ih =>
    rw [List.cons_append, litBody_plain hquote hback hc] at h
    exact ih h
  | case7 result pos c s _ _ hc =>
    rw [List.cons_append, litBody_of_not_isAscii hc] at h
    exact nomatch h

theorem litBody_opened {result s : List Char} {pos pos' : ℕ}
    (h : litBody result pos s = .err pos' .unterminatedString) {c : Char} (hc : ¬IsAscii c)
    (t : List Char) : litBody result pos (s ++ c :: t) = .panic := by
  fun_induction litBody result pos s with
  | case1 result pos => exact litBody_of_not_isAscii hc result pos t
  | case2 => exact nomatch h
  | case3 | case5 => exact nomatch (Outcome.err.inj h).2
  | case4 result pos d s ch hch _ ih =>
    rw [List.cons_append, List.cons_append, litBody_escaped hch]
    exact ih h
  | case6 result pos d s hquote hback hd ih =>
    rw [List.cons_append, litBody_plain hquote hback hd]
    exact ih h
  | case7 => exact nomatch h

theorem litBody_panics {result s : List Char} {pos : ℕ} (h : litBody result pos s = .panic) :
    ∃ p c t pos', s = p ++ c :: t ∧ ¬IsAscii c ∧
      litBody result pos p = .err pos' .unterminatedString := by
  fun_induction litBody result pos s with
  | case1 | case2 | case3 | case5 => exact nomatch h
  | case4 result pos d s ch hch _ ih =>
    obtain ⟨p, c, t, pos', rfl, hc, herr⟩ := ih h
    exact ⟨'\\' :: d :: p, c, t, pos', rfl, hc, (litBody_escaped hch result pos p).trans herr⟩
  | case6 result pos d s hquote hback hd ih =>
    obtain ⟨p, c, t, pos', rfl, hc, herr⟩ := ih h
    exact ⟨d :: p, c, t, pos', rfl, hc, (litBody_plain hquote hback hd result pos p).trans herr⟩
  | case7 result pos c s _ _ hc => exact ⟨[], c, s, pos, rfl, hc, rfl⟩

theorem litBody_ne_hang (result s : List Char) (pos : ℕ) : litBody result pos s ≠ .hang := by
  fun_induction litBody result pos s with
  | case1 | case2 | case3 | case5 | case7 => exact (nomatch ·)
  | case4 _ _ _ _ _ _ _ ih => exact ih
  | case6 _ _ _ _ _ _ _ ih => exact ih

theorem isWord_quote : IsWord "\"" := ⟨by decide, by decide⟩

/-- `parse_string` once whitespace is skipped, up to the literal's characters. -/
def quoted (uni : Char → Bool) : Parse (List Char) :=
  eatHere uni "\"" >>= fun b =>
    (if b then pure () else skipWs >>= fun _ => failCtx 12 (.expected "\"")) >>= fun _ =>
      loop parseStringStep []

theorem parseString_eq : parseString uni =
    skipWs >>= fun _ => skipWs >>= fun _ => quoted uni >>= fun result =>
      pure (String.ofList result) := by
  simp only [parseString, expect, eat, quoted, bind_assoc]

theorem eatHere_quote (pos : ℕ) (s : List Char) :
    eatHere uni "\"" pos (utf8 ('"' :: s)) = .ok true (pos + 1) (utf8 s) := by
  have hscan : eatScan uni "\"" ('"' :: s) = (true, 1) := rfl
  rw [reads_eatHere isWord_quote, hscan]
  rfl

theorem eatHere_other {s : List Char} (h : s.head? ≠ some '"') (pos : ℕ) :
    eatHere uni "\"" pos (utf8 s) = .ok false pos (utf8 s) := by
  have hscan : eatScan uni "\"" s = (false, 0) := by
    have hpre : "\"".toList.isPrefixOf s = false := by
      match s, h with
      | [], _ => rfl
      | c :: s, h =>
        have hne : ('"' == c) = false := by
          rw [beq_eq_false_iff_ne]
          rintro rfl
          exact h rfl
        change ('"' == c && _) = false
        rw [hne, Bool.false_and]
    rw [eatScan, hpre]
    rfl
  rw [reads_eatHere isWord_quote, hscan]
  rfl

theorem quoted_quote (pos : ℕ) (s : List Char) :
    quoted uni pos (utf8 ('"' :: s)) = litBody [] (pos + 1) s := by
  rw [quoted, bind_of_ok (eatHere_quote pos s), if_pos rfl, pure_bind]
  exact parseStringLoop_apply (Nat.lt_succ_self _)

theorem failCtx_bind {β : Type} {n : ℕ} {msg : String → ParseMsg} (g : α → Parse β) :
    (failCtx n msg >>= g) = failCtx n msg := by
  funext pos rest
  change Parser.bind _ g pos rest = _
  unfold Parser.bind failCtx
  by_cases h : isCharBoundary rest <;> simp [h]

theorem quoted_other {s : List Char} (h : s.head? ≠ some '"') (pos : ℕ) :
    quoted uni pos (utf8 s) = (skipWs >>= fun _ => failCtx 12 (.expected "\"")) pos (utf8 s) := by
  rw [quoted, bind_of_ok (eatHere_other h pos), if_neg (by decide), bind_assoc]
  simp only [failCtx_bind]

theorem exists_cons_of_head? {c : Char} {s : List Char} (h : s.head? = some c) :
    ∃ s', s = c :: s' := by
  match s, h with
  | _ :: s', rfl => exact ⟨s', rfl⟩

theorem head?_append_ne {c d : Char} {s t : List Char} (h : s.head? ≠ some c) (hd : d ≠ c) :
    (s ++ d :: t).head? ≠ some c := by
  match s, h with
  | [], _ => exact fun hc => hd (Option.some.inj hc)
  | _ :: _, h => exact h

theorem quoted_consumes {pos pos' : ℕ} {s a : List Char} {r : List UInt8}
    (h : quoted uni pos (utf8 s) = .ok a pos' r) :
    ∃ p s', s = p ++ s' ∧ r = utf8 s' ∧ pos' = pos + (utf8 p).length := by
  by_cases hs : s.head? = some '"'
  · obtain ⟨s, rfl⟩ := exists_cons_of_head? hs
    rw [quoted_quote] at h
    obtain ⟨p, s', -, rfl, rfl, rfl⟩ := litBody_consumes h
    refine ⟨'"' :: p, s', rfl, rfl, ?_⟩
    rw [length_utf8_of_isAscii (by decide)]
    omega
  · rw [quoted_other hs] at h
    exact (safe_notFound "\"").consumes h

/-- A literal panics exactly on a character outside ASCII where it could have ended with the
text. -/
theorem safe_quoted : SafeParse (quoted uni) where
  consumes h := quoted_consumes h
  stable := by
    intro pos pos' s s' t a hq
    have hne : s' ≠ [] := List.ne_nil_of_mem hq
    match s with
    | [] =>
      -- nothing is left of an empty text, and no more than `t` of the text `t`
      refine ⟨fun h => ?_, fun h => ?_⟩
      all_goals
        obtain ⟨p, s₁, ht, hs₁, -⟩ := quoted_consumes h
        obtain rfl := utf8_injective hs₁
        have hlen : 0 < s'.length := List.length_pos_of_ne_nil hne
        have := congrArg List.length ht
        simp only [List.nil_append, List.length_append, List.length_nil] at this
        omega
    | c :: s =>
      by_cases hc : c = '"'
      · subst c
        rw [List.cons_append, quoted_quote, quoted_quote]
        exact ⟨fun h => litBody_append h t, litBody_of_append hne⟩
      · have hhead : ∀ l : List Char, (c :: l).head? ≠ some '"' := fun l h =>
          hc (Option.some.inj h)
        rw [List.cons_append, quoted_other (hhead s), quoted_other (hhead _)]
        exact (safe_notFound "\"").stable hq
  opened {pos pos' s} h := by
    by_cases hs : s.head? = some '"'
    · obtain ⟨s, rfl⟩ := exists_cons_of_head? hs
      rw [quoted_quote] at h
      refine ⟨List.mem_cons_self, fun c t hc => ?_⟩
      rw [List.cons_append, quoted_quote]
      exact litBody_opened h hc t
    · rw [quoted_other hs] at h
      obtain ⟨hq, hpanic⟩ := (safe_notFound "\"").opened h
      refine ⟨hq, fun c t hc => ?_⟩
      have hcq : c ≠ '"' := by rintro rfl; exact hc (by decide)
      rw [quoted_other (head?_append_ne hs hcq)]
      exact hpanic c t hc
  panics {pos s} h := by
    by_cases hs : s.head? = some '"'
    · obtain ⟨s, rfl⟩ := exists_cons_of_head? hs
      rw [quoted_quote] at h
      obtain ⟨p, c, t, pos', rfl, hc, herr⟩ := litBody_panics h
      exact ⟨'"' :: p, c, t, pos', rfl, hc, (quoted_quote pos p).trans herr⟩
    · rw [quoted_other hs] at h
      obtain ⟨p, c, t, pos', rfl, hc, herr⟩ := (safe_notFound "\"").panics h
      have hp : p.head? ≠ some '"' := by
        match p, hs with
        | [], _ => exact (nomatch ·)
        | _ :: _, hs => exact hs
      exact ⟨p, c, t, pos', rfl, hc, (quoted_other hp pos).trans herr⟩
  halts pos s := by
    by_cases hs : s.head? = some '"'
    · obtain ⟨s, rfl⟩ := exists_cons_of_head? hs
      rw [quoted_quote]
      exact litBody_ne_hang _ _ _
    · rw [quoted_other hs]
      exact (safe_notFound "\"").halts pos s

theorem safe_parseString : SafeParse (parseString uni) := by
  rw [parseString_eq]
  exact safe_skipWs.bind fun _ => safe_skipWs.bind fun _ => safe_quoted.bind fun _ => .pure _

end Rivr.Core
