import Rivr.Core.ParserSafety
import Rivr.ForMathlib.ParserTakes

/-!
# What the parser makes of phrases

The tokens and the phrases of the grammar of `parser.rs`, each with the text it is written as:
names, numbers, words between blanks, the operators of a pipeline and the statements. The statements
are put together in `takes_parseProgram`.
-/

open ByteParser Utf8

namespace Rivr.Core

variable {uni : Char → Bool} {α : Type} {next : Option Char}

/-! ### Blanks and words -/

/-- The character is a blank of the language. -/
def isBlank (c : Char) : Bool := onChar isAsciiWhitespace c

/-- The text goes on with a token, or ends. -/
def settled : Option Char → Bool
  | none => true
  | some c => !isBlank c && c != '/'

/-- The characters are blanks. -/
abbrev Blanks (ws : List Char) : Prop := ∀ c ∈ ws, isBlank c = true

theorem blanks_nil : Blanks [] := nofun

theorem takeWhile_of_next {P : Char → Bool} {w s : List Char} (hw : ∀ c ∈ w, P c = true)
    (hs : ∀ c, s.head? = some c → P c = false) : (w ++ s).takeWhile P = w := by
  rw [List.takeWhile_append_of_pos hw]
  match s with
  | [] => exact List.append_nil w
  | c :: s => rw [List.takeWhile_cons_of_neg (by simp [hs c rfl]), List.append_nil]

/-- Skipping the characters of a predicate. -/
theorem takes_skipWhile {P : UInt8 → Bool} (hP : Uniform P) {w : List Char}
    (hw : ∀ c ∈ w, onChar P c = true) (hnext : ∀ c, next = some c → onChar P c = false) :
    Takes (skipWhile P) w () next := by
  refine .of_reads (reads_skipWhile hP) fun s hs => ?_
  rw [takeWhile_of_next hw fun c hc => hnext c (hs.symm.trans hc)]

/-- Slicing the characters of a predicate. -/
theorem takes_sliceWhile {P : UInt8 → Bool} (h : ∀ b, P b = true → b.toNat < 0x80) {w : List Char}
    (hw : ∀ c ∈ w, onChar P c = true) (hnext : ∀ c, next = some c → onChar P c = false) :
    Takes (sliceWhile P) w (utf8 w) next := by
  refine .of_reads (reads_sliceWhile h) fun s hs => ?_
  rw [takeWhile_of_next hw fun c hc => hnext c (hs.symm.trans hc)]

theorem takes_startsWith_comment (hnext : settled next = true) :
    Takes (startsWith "//") [] false next := by
  refine .of_reads (reads_startsWith isWord_comment) fun s hs => ?_
  match s with
  | [] => rfl
  | c :: s =>
    obtain rfl : some c = next := hs
    have hc : c ≠ '/' := by
      simp only [settled, Bool.and_eq_true, bne_iff_ne] at hnext
      exact hnext.2
    have hcomment : "//".toList.isPrefixOf (c :: s) = false := by
      simp [List.isPrefixOf, Ne.symm hc]
    rw [List.nil_append, hcomment]
    rfl

/-- Blanks before a token, or before the end, are skipped. -/
theorem takes_skipWs {ws : List Char} (hws : Blanks ws) (hnext : settled next = true) :
    Takes skipWs ws () next := by
  have hblank : ∀ c, next = some c → onChar isAsciiWhitespace c = false := by
    rintro c rfl
    simp only [settled, Bool.and_eq_true, Bool.not_eq_true'] at hnext
    exact hnext.1
  have hskip := takes_skipWhile (uniform_of_lt isAsciiWhitespace_lt) hws hblank
  exact .done (hskip.bind_last ((takes_startsWith_comment hnext).bind_last (.pure _ _)))

/-- An ASCII character that goes on with an identifier. -/
def asciiWordChar (c : Char) : Bool := c.isAlphanum || c == '_'

/-- The word ends where it stands: its last character or the next one goes on with no identifier. -/
def wordEnds (w : List Char) (next : Option Char) : Bool :=
  !(w.getLast?.map asciiWordChar).getD false ||
    next.all fun c => decide (IsAscii c) && !asciiWordChar c

theorem isWordChar_of_isAscii {c : Char} (hc : IsAscii c) :
    isWordChar uni c = asciiWordChar c := by
  rw [isWordChar, isAlphanumeric, if_pos (show c.toNat < 0x80 from hc), asciiWordChar]

theorem goesOn_of_wordEnds {w s : List Char} (hw : ∀ c ∈ w, IsAscii c)
    (hends : wordEnds w s.head? = true) : goesOn uni w (w ++ s) = false := by
  rw [goesOn, List.drop_left, Bool.and_eq_false_iff]
  have hlast : (w.getLast?.map (isWordChar uni)).getD false =
      (w.getLast?.map asciiWordChar).getD false := by
    cases hw' : w.getLast? with
    | none => rfl
    | some c =>
      simp only [Option.map_some, Option.getD_some]
      exact isWordChar_of_isAscii (hw c (List.mem_of_getLast? hw'))
  rw [wordEnds, Bool.or_eq_true, Bool.not_eq_true'] at hends
  rw [hlast]
  refine hends.imp_right fun hnext => ?_
  cases s with
  | nil =>
    rw [List.headD_nil, isWordChar_of_isAscii (by decide)]
    rfl
  | cons c s =>
    simp only [List.head?_cons, Option.all_some, Bool.and_eq_true, decide_eq_true_eq,
      Bool.not_eq_true'] at hnext
    rw [List.headD_cons, isWordChar_of_isAscii hnext.1]
    exact hnext.2

/-- A word is eaten after blanks. -/
theorem takes_eat {ws : List Char} {kw : String} (hws : Blanks ws) (hkw : IsWord kw)
    (hfirst : settled kw.toList.head? = true) (hne : kw.toList ≠ [])
    (hends : wordEnds kw.toList next = true) :
    Takes (eat uni kw) (ws ++ kw.toList) true next := by
  have hhere : Takes (eatHere uni kw) kw.toList true next := by
    refine .of_reads (reads_eatHere hkw) fun s hs => ?_
    have hpre : kw.toList.isPrefixOf (kw.toList ++ s) = true :=
      List.isPrefixOf_iff_prefix.mpr (List.prefix_append _ _)
    rw [eatScan, hpre, goesOn_of_wordEnds hkw.ascii (hs ▸ hends)]
    rfl
  refine (takes_skipWs hws hfirst).bind hhere ?_
  rw [List.head?_eq_some_head hne]
  rfl

/-- A word that the text does not start with is not eaten. -/
theorem takes_eat_other {ws : List Char} {kw : String} (hws : Blanks ws) (hkw : IsWord kw)
    (hnext : settled next = true) (hne : kw.toList ≠ []) (hother : kw.toList.head? ≠ next) :
    Takes (eat uni kw) ws false next := by
  have hhere : Takes (eatHere uni kw) [] false next := by
    refine .of_reads (reads_eatHere hkw) fun s hs => ?_
    have hpre : kw.toList.isPrefixOf s = false := by
      rw [← Bool.not_eq_true, List.isPrefixOf_iff_prefix]
      rintro ⟨t, rfl⟩
      rw [List.head?_append_of_ne_nil _ hne] at hs
      exact hother hs
    rw [List.nil_append, eatScan, hpre]
    rfl
  exact (takes_skipWs hws hnext).bind_last hhere

/-- A word is expected after blanks. -/
theorem takes_expect {ws : List Char} {kw : String} (hws : Blanks ws) (hkw : IsWord kw)
    (hfirst : settled kw.toList.head? = true) (hne : kw.toList ≠ [])
    (hends : wordEnds kw.toList next = true) :
    Takes (expect uni kw) (ws ++ kw.toList) () next :=
  (takes_eat hws hkw hfirst hne hends).bind_last (.pure _ _)

/-! ### Names and numbers -/

/-- The text of a slice of ASCII characters. -/
theorem asciiString_utf8 {w : List Char} (hw : ∀ c ∈ w, IsAscii c) :
    asciiString (utf8 w) = String.ofList w := by
  rw [asciiString]
  congr 1
  induction w with
  | nil => rfl
  | cons c w ih =>
    have hc := hw c List.mem_cons_self
    rw [utf8_cons, utf8EncodeChar_of_isAscii hc, List.singleton_append, List.map_cons,
      toNat_ofNat_of_isAscii hc, Char.ofNat_toNat, ih fun d hd => hw d (List.mem_cons_of_mem _ hd)]

theorem isAscii_of_onChar {P : UInt8 → Bool} (h : ∀ b, P b = true → b.toNat < 0x80) {c : Char}
    (hc : onChar P c = true) : IsAscii c := by
  by_contra hnot
  obtain ⟨b, x, bs, heq, hb, -⟩ := utf8EncodeChar_of_not_isAscii hnot
  have hP : P b = true := List.all_eq_true.mp hc b (heq ▸ List.mem_cons_self)
  have := h b hP
  omega

/-- The next character is not one of the span. -/
def endsSpan (P : UInt8 → Bool) (next : Option Char) : Bool := next.all fun c => !onChar P c

theorem onChar_of_endsSpan {P : UInt8 → Bool} (h : endsSpan P next = true) :
    ∀ c, next = some c → onChar P c = false := by
  rintro c rfl
  simpa [endsSpan] using h

/-- A token of the characters of a predicate, after blanks. -/
structure IsToken (P : UInt8 → Bool) (w : List Char) : Prop where
  chars : ∀ c ∈ w, onChar P c = true
  ne_nil : w ≠ []
  settled : settled w.head? = true

theorem takes_token {P : UInt8 → Bool} (h : ∀ b, P b = true → b.toNat < 0x80) {ws w : List Char}
    (hws : Blanks ws) (hw : IsToken P w) (hnext : endsSpan P next = true)
    {g : List UInt8 → Parse α} {a : α} (hg : Takes (g (utf8 w)) [] a next) :
    Takes (do skipWs; let slice ← sliceWhile P; g slice) (ws ++ w) a next := by
  refine (takes_skipWs hws hw.settled).bind
    ((takes_sliceWhile h hw.chars (onChar_of_endsSpan hnext)).bind_last hg) ?_
  rw [List.head?_eq_some_head hw.ne_nil]
  rfl

theorem isEmpty_utf8 {w : List Char} (h : w ≠ []) : (utf8 w).isEmpty = false := by
  simpa using utf8_ne_nil h

/-- A name. -/
theorem takes_parseIdent {ws : List Char} {name : String} (hws : Blanks ws)
    (hname : IsToken isIdentByte name.toList) (hnext : endsSpan isIdentByte next = true) :
    Takes parseIdent (ws ++ name.toList) name next := by
  refine takes_token isIdentByte_lt hws hname hnext ?_
  rw [isEmpty_utf8 hname.ne_nil,
    asciiString_utf8 fun c hc => isAscii_of_onChar isIdentByte_lt (hname.chars c hc),
    String.ofList_toList]
  exact .pure _ _

/-- A dotted name. -/
theorem takes_readDottedName {ws : List Char} {name : String} (hws : Blanks ws)
    (hname : IsToken isDottedByte name.toList) (hnext : endsSpan isDottedByte next = true) :
    Takes readDottedName (ws ++ name.toList) name next := by
  refine takes_token isDottedByte_lt hws hname hnext ?_
  rw [asciiString_utf8 fun c hc => isAscii_of_onChar isDottedByte_lt (hname.chars c hc),
    String.ofList_toList]
  exact .pure _ _

/-- A number of digits. -/
theorem takes_parseUint {ws w : List Char} {n : ℕ} (hws : Blanks ws)
    (hw : IsToken isAsciiDigit w) (hnext : endsSpan isAsciiDigit next = true)
    (hvalue : digitsValue (utf8 w) = n) (hn : n < 2 ^ 64) :
    Takes parseUint (ws ++ w) (UInt64.ofNat n) next := by
  have hslice : Takes (do
      let start ← getPos
      let slice ← sliceWhile isAsciiDigit
      if slice.isEmpty then fail .expectedInteger
      else if digitsValue slice < 2 ^ 64 then return UInt64.ofNat (digitsValue slice)
      else failAt start .numberTooLarge : Parse UInt64) w (UInt64.ofNat n) next := by
    intro pos s hs
    refine ((takes_sliceWhile isAsciiDigit_lt hw.chars (onChar_of_endsSpan hnext)).bind_last
      ?_) pos s hs
    rw [isEmpty_utf8 hw.ne_nil, hvalue, if_pos hn]
    exact .pure _ _
  refine (takes_skipWs hws hw.settled).bind hslice ?_
  rw [List.head?_eq_some_head hw.ne_nil]
  rfl

/-- A positive number. -/
theorem takes_parsePositiveUint {what : String} {ws w : List Char} {n : ℕ} (hws : Blanks ws)
    (hw : IsToken isAsciiDigit w) (hnext : endsSpan isAsciiDigit next = true)
    (hvalue : digitsValue (utf8 w) = n) (hn : n < 2 ^ 64) (hpos : 0 < n) :
    Takes (parsePositiveUint what) (ws ++ w) (UInt64.ofNat n) next := by
  refine (takes_parseUint hws hw hnext hvalue hn).bind_last ?_
  have hne : UInt64.ofNat n ≠ 0 := by
    intro heq
    have := congrArg UInt64.toNat heq
    rw [UInt64.toNat_ofNat_of_lt' hn] at this
    exact hpos.ne' this
  rw [if_neg hne]
  exact .pure _ _

/-- A number with a point. -/
theorem takes_parseFloat {ws w : List Char} {x : Float} (hws : Blanks ws)
    (hw : IsToken isFloatByte w) (hnext : endsSpan isFloatByte next = true)
    (hvalue : parseF64 (utf8 w) = some x) : Takes parseFloat (ws ++ w) x next := by
  refine (takes_skipWs hws hw.settled).bind ?_ ?_
  · intro pos s hs
    refine ((takes_sliceWhile isFloatByte_lt hw.chars (onChar_of_endsSpan hnext)).bind_last
      ?_) pos s hs
    rw [isEmpty_utf8 hw.ne_nil, hvalue]
    exact .pure _ _
  · rw [List.head?_eq_some_head hw.ne_nil]
    rfl

/-! ### Decimal numbers -/

theorem onChar_isAsciiDigit {c : Char} (hc : c.isDigit = true) : onChar isAsciiDigit c = true := by
  rw [Char.isDigit, Bool.and_eq_true, decide_eq_true_eq, decide_eq_true_eq] at hc
  have hle : 48 ≤ c.toNat ∧ c.toNat ≤ 57 := hc
  have hascii : IsAscii c := Nat.lt_of_le_of_lt hle.2 (by decide)
  rw [onChar, utf8EncodeChar_of_isAscii hascii, List.all_cons, List.all_nil, Bool.and_true,
    isAsciiDigit, Bool.and_eq_true, decide_eq_true_eq, decide_eq_true_eq, UInt8.le_iff_toNat_le,
    UInt8.le_iff_toNat_le, toNat_ofNat_of_isAscii hascii]
  exact hle

/-- A character that is not one of the span of blanks and no slash starts a token. -/
theorem settled_of_isDigit {c : Char} (hc : c.isDigit = true) : settled (some c) = true := by
  rw [Char.isDigit, Bool.and_eq_true, decide_eq_true_eq, decide_eq_true_eq] at hc
  have hle : 48 ≤ c.toNat ∧ c.toNat ≤ 57 := hc
  have hascii : IsAscii c := Nat.lt_of_le_of_lt hle.2 (by decide)
  have hne : ∀ d : Char, d.toNat < 48 → c ≠ d := by
    rintro d hd rfl
    omega
  have hblank : isBlank c = false := by
    rw [isBlank, onChar, utf8EncodeChar_of_isAscii hascii, List.all_cons, List.all_nil,
      Bool.and_true, isAsciiWhitespace]
    have hbyte : ∀ b : UInt8, b.toNat < 48 → (UInt8.ofNat c.toNat == b) = false := by
      intro b hb
      rw [beq_eq_false_iff_ne]
      rintro rfl
      rw [toNat_ofNat_of_isAscii hascii] at hb
      omega
    rw [hbyte 32 (by decide), hbyte 9 (by decide), hbyte 10 (by decide), hbyte 12 (by decide),
      hbyte 13 (by decide)]
    rfl
  rw [settled, hblank, Bool.not_false, Bool.true_and, bne_iff_ne]
  exact hne '/' (by decide)

theorem isToken_toDigits (n : ℕ) : IsToken isAsciiDigit (Nat.toDigits 10 n) where
  chars c hc := onChar_isAsciiDigit (Nat.isDigit_of_mem_toDigits (by decide) (by decide) hc)
  ne_nil := Nat.toDigits_ne_nil
  settled := by
    rw [List.head?_eq_some_head Nat.toDigits_ne_nil]
    exact settled_of_isDigit
      (Nat.isDigit_of_mem_toDigits (by decide) (by decide) (List.head_mem Nat.toDigits_ne_nil))

/-- A number is read off its decimal digits. -/
theorem digitsValue_toDigits (n : ℕ) : digitsValue (utf8 (Nat.toDigits 10 n)) = n := by
  have hfold : ∀ (w : List Char) (m : ℕ), (∀ c ∈ w, IsAscii c) →
      (utf8 w).foldl (fun n b => 10 * n + (b.toNat - 48)) m = Nat.ofDigitChars 10 w m := by
    intro w
    induction w with
    | nil => exact fun m _ => Nat.ofDigitChars_nil.symm
    | cons c w ih =>
      intro m hw
      have hc := hw c List.mem_cons_self
      rw [utf8_cons, utf8EncodeChar_of_isAscii hc, List.singleton_append, List.foldl_cons,
        toNat_ofNat_of_isAscii hc, ih _ fun d hd => hw d (List.mem_cons_of_mem _ hd),
        Nat.ofDigitChars_cons]
      rfl
  rw [digitsValue, hfold _ _ fun c hc => isAscii_of_onChar isAsciiDigit_lt
    ((isToken_toDigits n).chars c hc), Nat.ofDigitChars_ten_toDigits]

/-! ### Pipe operators -/

theorem isWord_named {key : String} (h : ∀ c ∈ key.toList, onChar isIdentByte c = true) :
    IsWord key where
  ascii c hc := isAscii_of_onChar isIdentByte_lt (h c hc)
  quote hmem := by
    have := h _ (List.dropLast_subset _ hmem)
    exact absurd this (by decide)

/-- An opening parenthesis. -/
theorem takes_open (next : Option Char) : Takes (expect uni "(") "(".toList () next :=
  takes_expect blanks_nil isWord_lparen (by decide) (by decide) rfl

/-- A closing one. -/
theorem takes_close (next : Option Char) : Takes (expect uni ")") ")".toList () next :=
  takes_expect blanks_nil isWord_rparen (by decide) (by decide) rfl

/-- A semicolon. -/
theorem takes_semicolon (next : Option Char) : Takes (expect uni ";") ";".toList () next :=
  takes_expect blanks_nil isWord_semicolon (by decide) (by decide) rfl

/-- An operator by its name. -/
theorem takes_parsePipeOp (name : String) {ws w : List Char} {op : Parse PipeOp} {a : PipeOp}
    (hws : Blanks ws) (hname : IsToken isDottedByte name.toList)
    (hop : (pipeOps uni).lookup name = some op) (hargs : Takes op w a next)
    (hopen : w.head? = some '(') : Takes (parsePipeOp uni) (ws ++ (name.toList ++ w)) a next := by
  have hdotted : Takes readDottedName ([] ++ name.toList) name (some '(') :=
    takes_readDottedName blanks_nil hname (by decide)
  unfold parsePipeOp
  refine (takes_skipWs hws hname.settled).bind (hdotted.bind ?_ ?_) ?_
  · rw [hop]
    exact hargs
  · rw [hopen]
    rfl
  · rw [List.head?_append_of_ne_nil _ hname.ne_nil, List.head?_eq_some_head hname.ne_nil]
    rfl

/-- `filter.pkt_type(T)`. -/
theorem takes_pktTypeOp {t : ℕ} (ht : t ≤ 255) :
    Takes (pktTypeOp uni) ("(".toList ++ (Nat.toDigits 10 t ++ ")".toList))
      (.filterPktType (UInt8.ofNat t)) next := by
  have hlt : t < UInt64.size := Nat.lt_of_le_of_lt ht (by decide)
  have huint : Takes parseUint ([] ++ Nat.toDigits 10 t) (UInt64.ofNat t) (some ')') :=
    takes_parseUint blanks_nil (isToken_toDigits t) (by decide) (digitsValue_toDigits t) hlt
  have hle : ¬UInt64.ofNat t > 255 := by
    rw [gt_iff_lt, UInt64.lt_iff_toNat_lt, UInt64.toNat_ofNat_of_lt' hlt, Nat.not_lt]
    exact ht
  have hbyte : (UInt64.ofNat t).toUInt8 = UInt8.ofNat t := by
    rw [← UInt8.toNat_inj, UInt64.toNat_toUInt8, UInt64.toNat_ofNat_of_lt' hlt]
    rfl
  unfold pktTypeOp
  refine .bind_any takes_open (huint.bind ?_ rfl)
  rw [if_neg hle, hbyte]
  exact (takes_close _).bind_last (.pure _ _)

/-- An operator with one positive number. -/
theorem takes_positiveOp {what : String} {op : UInt64 → PipeOp} {n : ℕ} (hpos : 0 < n)
    (hn : n < 2 ^ 64) :
    Takes (positiveOp uni what op) ("(".toList ++ (Nat.toDigits 10 n ++ ")".toList))
      (op (UInt64.ofNat n)) next := by
  have huint : Takes (parsePositiveUint what) ([] ++ Nat.toDigits 10 n) (UInt64.ofNat n)
      (some ')') :=
    takes_parsePositiveUint blanks_nil (isToken_toDigits n) (by decide) (digitsValue_toDigits n) hn
      hpos
  unfold positiveOp
  exact .bind_any takes_open (huint.bind (takes_close _).bind_pure rfl)

/-- A key that is left out. -/
theorem takes_skipNamed {key : String} {ws : List Char} (hws : Blanks ws)
    (hkey : ∀ c ∈ key.toList, onChar isIdentByte c = true) (hne : key.toList ≠ [])
    (hsettled : settled next = true) (hother : key.toList.head? ≠ next) :
    Takes (skipNamed uni key) ws () next :=
  (takes_eat_other hws (isWord_named hkey) hsettled hne hother).bind_last (.pure _ _)

/-- A comma. -/
theorem takes_comma (next : Option Char) : Takes (expect uni ",") ",".toList () next :=
  takes_expect blanks_nil isWord_comma (by decide) (by decide) rfl

/-- The first character of a number is none of a key's. -/
theorem head?_toDigits_ne {key : String} (hkey : ∀ c ∈ key.toList.head?, c.isDigit = false) (n : ℕ) :
    key.toList.head? ≠ (Nat.toDigits 10 n).head? := by
  intro heq
  rw [List.head?_eq_some_head Nat.toDigits_ne_nil] at heq
  have hdigit := Nat.isDigit_of_mem_toDigits (by decide) (by decide)
    (List.head_mem (Nat.toDigits_ne_nil (n := n) (b := 10)))
  rw [hkey _ heq] at hdigit
  exact nomatch hdigit

/-- `budget.toa_us(WINDOW_MS, DUTY, TOA_US)` without its keys. -/
theorem takes_budgetToaUsOp {windowMs toaUs : ℕ} {duty : List Char} {x : Float}
    (hpos : 0 < windowMs) (hwindow : windowMs < 2 ^ 64) (htoa : toaUs < 2 ^ 64)
    (hduty : IsToken isFloatByte ('0' :: duty)) (hx : parseF64 (utf8 ('0' :: duty)) = some x) :
    Takes (budgetToaUsOp uni)
      ("(".toList ++ (Nat.toDigits 10 windowMs ++ (",".toList ++ (" ".toList ++ ('0' :: duty ++
        (",".toList ++ (" ".toList ++ (Nat.toDigits 10 toaUs ++ ")".toList))))))))
      (.budgetToaUs (UInt64.ofNat windowMs) x (UInt64.ofNat toaUs)) next := by
  have hkey : Takes (skipNamed uni "window_ms") [] () (Nat.toDigits 10 windowMs).head? :=
    takes_skipNamed blanks_nil (by decide) (by decide) (isToken_toDigits _).settled
      (head?_toDigits_ne (by rintro _ ⟨⟩; rfl) _)
  have hnum : Takes (parsePositiveUint "budget.toa_us window") ([] ++ Nat.toDigits 10 windowMs)
      (UInt64.ofNat windowMs) (some ',') :=
    takes_parsePositiveUint blanks_nil (isToken_toDigits _) (by decide) (digitsValue_toDigits _)
      hwindow hpos
  have hkey₂ : Takes (skipNamed uni "duty") " ".toList () (some '0') :=
    takes_skipNamed (by decide) (by decide) (by decide) (by decide) (by decide)
  have hfloat : Takes parseFloat ([] ++ '0' :: duty) x (some ',') :=
    takes_parseFloat blanks_nil hduty (by decide) hx
  have hkey₃ : Takes (skipNamed uni "toa_us") " ".toList () (Nat.toDigits 10 toaUs).head? :=
    takes_skipNamed (by decide) (by decide) (by decide) (isToken_toDigits _).settled
      (head?_toDigits_ne (by rintro _ ⟨⟩; rfl) _)
  have htoaUs : Takes parseUint ([] ++ Nat.toDigits 10 toaUs) (UInt64.ofNat toaUs) (some ')') :=
    takes_parseUint blanks_nil (isToken_toDigits _) (by decide) (digitsValue_toDigits _) htoa
  have hhead : ∀ (n : ℕ) (w : List Char), (Nat.toDigits 10 n ++ w).head?.or next =
      (Nat.toDigits 10 n).head? := by
    intro n w
    rw [List.head?_append_of_ne_nil _ Nat.toDigits_ne_nil,
      List.head?_eq_some_head Nat.toDigits_ne_nil, Option.some_or]
  unfold budgetToaUsOp
  refine .bind_any takes_open (hkey.bind_nil (hnum.bind (.bind_any takes_comma (hkey₂.bind
    (hfloat.bind (.bind_any takes_comma (hkey₃.bind
      (htoaUs.bind (takes_close _).bind_pure rfl) (hhead _ _))) rfl) rfl)) rfl) (hhead _ _))

/-! ### Expressions -/

theorem takes_peek (c : Char) : Takes peek [] c (some c) := by
  intro pos s hs
  rw [List.nil_append, peek, isCharBoundary_utf8, nextChar_utf8, List.headD_eq_head?_getD, hs]
  rfl

/-- The name of a stream: it starts with a letter, and not as `merge` does. -/
structure IsStream (name : String) : Prop extends IsToken isIdentByte name.toList where
  letter : ∀ c ∈ name.toList.head?, c ≠ 'm' ∧ c ≠ '"' ∧ c.isDigit = false

/-- A stream by its name. -/
theorem takes_parsePrimary {ws : List Char} {name : String} (hws : Blanks ws)
    (hname : IsStream name) (hnext : endsSpan isIdentByte next = true) :
    Takes (parsePrimary uni) (ws ++ name.toList) (.ident name) next := by
  obtain ⟨c, hc⟩ : ∃ c, name.toList.head? = some c :=
    ⟨_, List.head?_eq_some_head hname.ne_nil⟩
  obtain ⟨hmerge, hquote, hdigit⟩ := hname.letter c hc
  have hsettled : settled (some c) = true := hc ▸ hname.settled
  have heat : Takes (eat uni "merge") [] false (some c) :=
    takes_eat_other blanks_nil (isWord_named (by decide)) hsettled (by decide)
      fun heq => hmerge (Option.some.inj heq).symm
  have hident : Takes parseIdent ([] ++ name.toList) name next :=
    takes_parseIdent blanks_nil hname.toIsToken hnext
  have hhead : name.toList.head?.or next = some c := by rw [hc, Option.some_or]
  unfold parsePrimary
  refine (takes_skipWs hws hsettled).bind (heat.bind_nil ((takes_peek c).bind_nil ?_ hhead) hhead)
    hhead
  rw [if_neg hquote, hdigit]
  exact hident.bind_pure

theorem takes_skipStr {w : String} (hw : IsWord w) (next : Option Char) :
    Takes (skipStr w) w.toList true next := by
  intro pos s _
  have hpre : w.toList.isPrefixOf (w.toList ++ s) = true :=
    List.isPrefixOf_iff_prefix.mpr (List.prefix_append _ _)
  rw [skipStr, isCharBoundary_utf8, utf8_isPrefixOf hw.ascii, hpre, drop_utf8_of_isPrefixOf hpre,
    List.drop_left]
  rfl

theorem takes_skipStr_other {w : String} (hw : IsWord w) (hne : w.toList ≠ [])
    (hother : w.toList.head? ≠ next) : Takes (skipStr w) [] false next := by
  intro pos s hs
  have hpre : w.toList.isPrefixOf s = false := by
    rw [← Bool.not_eq_true, List.isPrefixOf_iff_prefix]
    rintro ⟨t, rfl⟩
    rw [List.head?_append_of_ne_nil _ hne] at hs
    exact hother hs
  rw [List.nil_append, skipStr, isCharBoundary_utf8, utf8_isPrefixOf hw.ascii, hpre]
  rfl

/-- A pipeline goes on with an operator. -/
theorem takes_pipe {ws w w' : List Char} {lhs e : Expr} {op : PipeOp} {next' : Option Char}
    (hws : Blanks ws) (hop : Takes (parsePipeOp uni) w op next')
    (hrest : Takes (loop (parseExprStep uni) (.pipe lhs op)) w' e next)
    (hnext : w'.head?.or next = next') :
    Takes (loop (parseExprStep uni) lhs) ((ws ++ ("|>".toList ++ w)) ++ w') e next := by
  have hstep : Takes (parseExprStep uni lhs) (ws ++ ("|>".toList ++ w)) (.inl (.pipe lhs op))
      next' := by
    have hskip : Takes skipWs ws () (some '|') := takes_skipWs hws (by decide)
    unfold parseExprStep
    exact hskip.bind (.bind_any (takes_skipStr isWord_pipe) hop.bind_pure) rfl
  refine hstep.more hrest hnext fun hnil => ?_
  exact absurd (List.append_eq_nil_iff.mp hnil).2 (List.cons_ne_nil _ _)

/-- A pipeline ends at a semicolon. -/
theorem takes_pipe_end {e : Expr} : Takes (loop (parseExprStep uni) e) [] e (some ';') := by
  have hskip : Takes (skipStr "|>") [] false (some ';') :=
    takes_skipStr_other isWord_pipe (by decide) (by decide)
  refine .done ?_
  unfold parseExprStep
  exact (takes_skipWs blanks_nil (by decide)).bind_last (hskip.bind_last (.pure _ _))

/-- A pipeline. -/
theorem takes_parseExpr {ws w : List Char} {name : String} {e : Expr} {c : Char}
    (hws : Blanks ws) (hname : IsStream name)
    (hpipes : Takes (loop (parseExprStep uni) (.ident name)) w e next)
    (hnext : w.head?.or next = some c) (hends : endsSpan isIdentByte (some c) = true) :
    Takes (parseExpr uni) ((ws ++ name.toList) ++ w) e next :=
  (takes_parsePrimary hws hname hends).bind hpipes hnext

/-! ### Statements -/

theorem isWord_lbrace : IsWord "\x7b" := ⟨by decide, by decide⟩

/-- An equals sign. -/
theorem takes_equals {ws : List Char} (hws : Blanks ws) (next : Option Char) :
    Takes (expect uni "=") (ws ++ "=".toList) () next :=
  takes_expect hws isWord_equals (by decide) (by decide) rfl

/-- A `source` statement. -/
theorem takes_source {ws w : List Char} {stmt : Stmt} (hws : Blanks ws)
    (hstmt : Takes (parseSourceStmt uni) w stmt next) (hhead : w.head? = some ' ') :
    Takes (parseStmt uni) (ws ++ ("source".toList ++ w)) stmt next := by
  have hfirst : w.head?.or next = some ' ' := by rw [hhead, Option.some_or]
  have heat : Takes (eat uni "source") ([] ++ "source".toList) true (some ' ') :=
    takes_eat blanks_nil (isWord_named (by decide)) (by decide) (by decide) (by decide)
  have hskip : Takes skipWs ws () (some 's') := takes_skipWs hws (by decide)
  unfold parseStmt
  exact hskip.bind (heat.bind hstmt hfirst) rfl

/-- A `let` statement. -/
theorem takes_let {ws w : List Char} {stmt : Stmt} (hws : Blanks ws)
    (hstmt : Takes (parseLetStmt uni) w stmt next) (hhead : w.head? = some ' ') :
    Takes (parseStmt uni) (ws ++ ("let".toList ++ w)) stmt next := by
  have hfirst : w.head?.or next = some ' ' := by rw [hhead, Option.some_or]
  have hother : Takes (eat uni "source") [] false (some 'l') :=
    takes_eat_other blanks_nil (isWord_named (by decide)) (by decide) (by decide) (by decide)
  have heat : Takes (eat uni "let") ([] ++ "let".toList) true (some ' ') :=
    takes_eat blanks_nil (isWord_named (by decide)) (by decide) (by decide) (by decide)
  have hskip : Takes skipWs ws () (some 'l') := takes_skipWs hws (by decide)
  unfold parseStmt
  exact hskip.bind (hother.bind_nil (heat.bind hstmt hfirst) rfl) rfl

/-- An `emit` statement. -/
theorem takes_emit {ws w : List Char} {stmt : Stmt} (hws : Blanks ws)
    (hstmt : Takes (parseEmitStmt uni) w stmt next) (hhead : w.head? = some ' ') :
    Takes (parseStmt uni) (ws ++ ("emit".toList ++ w)) stmt next := by
  have hfirst : w.head?.or next = some ' ' := by rw [hhead, Option.some_or]
  have hother : Takes (eat uni "source") [] false (some 'e') :=
    takes_eat_other blanks_nil (isWord_named (by decide)) (by decide) (by decide) (by decide)
  have hother₂ : Takes (eat uni "let") [] false (some 'e') :=
    takes_eat_other blanks_nil (isWord_named (by decide)) (by decide) (by decide) (by decide)
  have heat : Takes (eat uni "emit") ([] ++ "emit".toList) true (some ' ') :=
    takes_eat blanks_nil (isWord_named (by decide)) (by decide) (by decide) (by decide)
  have hskip : Takes skipWs ws () (some 'e') := takes_skipWs hws (by decide)
  unfold parseStmt
  exact hskip.bind (hother.bind_nil (hother₂.bind_nil (heat.bind hstmt hfirst) rfl) rfl) rfl

/-- What follows `source` without a clock. -/
theorem takes_parseSourceStmt (name : String) {w : List Char} {kind : SourceKind}
    (hname : IsToken isIdentByte name.toList)
    (hkind : Takes (parseSourceKind uni) w kind (some ';')) :
    Takes (parseSourceStmt uni)
      ([' '] ++ name.toList ++ ([' '] ++ ("=".toList ++ (w ++ ";".toList))))
      (.source name none kind) next := by
  have hident : Takes parseIdent ([' '] ++ name.toList) name (some ' ') :=
    takes_parseIdent (by decide) hname (by decide)
  have hclock : Takes (parseClock uni) [' '] none (some '=') :=
    (takes_eat_other (by decide) (isWord_at) (by decide) (by decide) (by decide)).bind_last
      (.pure _ _)
  unfold parseSourceStmt
  exact hident.bind (hclock.bind (.bind_any (takes_equals blanks_nil)
    (hkind.bind (takes_semicolon _).bind_pure rfl)) rfl) rfl

/-- What follows `source` with a clock. -/
theorem takes_parseSourceStmt_clock (name clock : String) {w : List Char} {kind : SourceKind}
    (hname : IsToken isIdentByte name.toList) (hclock : IsToken isIdentByte clock.toList)
    (hkind : Takes (parseSourceKind uni) w kind (some ';')) :
    Takes (parseSourceStmt uni)
      ([' '] ++ name.toList ++ (([' '] ++ "@".toList ++ clock.toList) ++ (([' '] ++ "=".toList) ++
        (w ++ ";".toList)))) (.source name (some ⟨clock⟩) kind) next := by
  have hident : Takes parseIdent ([' '] ++ name.toList) name (some ' ') :=
    takes_parseIdent (by decide) hname (by decide)
  have hclock' : Takes (parseClock uni) ([' '] ++ "@".toList ++ clock.toList) (some ⟨clock⟩)
      (some ' ') := by
    have hat : ∀ next, Takes (eat uni "@") ([' '] ++ "@".toList) true next := fun next =>
      takes_eat (by decide) isWord_at (by decide) (by decide) rfl
    have hident : Takes parseIdent ([] ++ clock.toList) clock (some ' ') :=
      takes_parseIdent blanks_nil hclock (by decide)
    unfold parseClock
    exact .bind_any hat hident.bind_pure
  unfold parseSourceStmt
  exact hident.bind (hclock'.bind (.bind_any (takes_equals (by decide))
    (hkind.bind (takes_semicolon _).bind_pure rfl)) rfl) rfl

/-- A kind of source that is a word. -/
theorem takes_sourceKind {name : String} {kind : SourceKind} {ws : List Char} (hws : Blanks ws)
    (hkind : (name, kind) ∈ [("rf", .rf), ("programmatic", .programmatic), ("usb", .usb),
      ("lora", SourceKind.lora)]) (hnext : endsSpan isIdentByte next = true) :
    Takes (parseSourceKind uni) (ws ++ name.toList) kind next := by
  have hident : IsToken isIdentByte name.toList → Takes parseIdent (ws ++ name.toList) name next :=
    fun hname => takes_parseIdent hws hname hnext
  unfold parseSourceKind
  simp only [List.mem_cons, Prod.mk.injEq, List.not_mem_nil, or_false] at hkind
  rcases hkind with ⟨rfl, rfl⟩ | ⟨rfl, rfl⟩ | ⟨rfl, rfl⟩ | ⟨rfl, rfl⟩
  all_goals exact (hident ⟨by decide, by decide, by decide⟩).bind_last (.pure _ _)

/-- A timer. -/
theorem takes_timer {n : ℕ} {ws : List Char} (hws : Blanks ws) (hpos : 0 < n) (hn : n < 2 ^ 64) :
    Takes (parseSourceKind uni)
      ((ws ++ "timer".toList) ++ ("(".toList ++ (Nat.toDigits 10 n ++ ")".toList)))
      (.timer (UInt64.ofNat n)) next := by
  have hident : Takes parseIdent (ws ++ "timer".toList) "timer" (some '(') :=
    takes_parseIdent hws ⟨by decide, by decide, by decide⟩ (by decide)
  have huint : Takes parseUint ([] ++ Nat.toDigits 10 n) (UInt64.ofNat n) (some ')') :=
    takes_parseUint blanks_nil (isToken_toDigits n) (by decide) (digitsValue_toDigits n) hn
  have hne : UInt64.ofNat n ≠ 0 := by
    intro heq
    have := congrArg UInt64.toNat heq
    rw [UInt64.toNat_ofNat_of_lt' hn] at this
    exact hpos.ne' this
  unfold parseSourceKind
  refine hident.bind (.bind_any takes_open (huint.bind ?_ rfl)) rfl
  rw [if_neg hne]
  exact (takes_close _).bind_pure

/-- What follows `let`. -/
theorem takes_parseLetStmt (name : String) {w : List Char} {e : Expr}
    (hname : IsToken isIdentByte name.toList)
    (hexpr : Takes (parseExpr uni) w e (some ';')) :
    Takes (parseLetStmt uni)
      ([' '] ++ name.toList ++ (([' '] ++ "=".toList) ++ (w ++ ";".toList)))
      (.letStmt name e) next := by
  have hident : Takes parseIdent ([' '] ++ name.toList) name (some ' ') :=
    takes_parseIdent (by decide) hname (by decide)
  unfold parseLetStmt
  exact hident.bind (.bind_any (takes_equals (by decide))
    (hexpr.bind (takes_semicolon _).bind_pure rfl)) rfl

/-- An operator of a pipeline, with its text. -/
abbrev OpText := List Char × PipeOp

/-- The text of the operators of a pipeline, one on a line. -/
def pipesText (ops : List OpText) : List Char := ops.flatMap fun o => "\n  |> ".toList ++ o.1

/-- The expression of a pipeline. -/
def pipesExpr (e : Expr) (ops : List OpText) : Expr := ops.foldl (fun e o => .pipe e o.2) e

/-- The operators of a pipeline. -/
theorem takes_pipes {e : Expr} {ops : List OpText}
    (hops : ∀ o ∈ ops, ∀ next, Takes (parsePipeOp uni) ([' '] ++ o.1) o.2 next) :
    Takes (loop (parseExprStep uni) e) (pipesText ops) (pipesExpr e ops) (some ';') := by
  induction ops generalizing e with
  | nil => exact takes_pipe_end
  | cons o ops ih =>
    have hblanks : Blanks "\n  ".toList := by decide
    have hrest := ih (e := .pipe e o.2) fun o ho => hops o (List.mem_cons_of_mem _ ho)
    exact (takes_pipe hblanks (hops o List.mem_cons_self _) hrest rfl).of_eq rfl

/-- A `let` statement with a pipeline. -/
theorem takes_letPipeline {name src : String} {ops : List OpText}
    (hname : IsToken isIdentByte name.toList) (hsrc : IsStream src)
    (hops : ∀ o ∈ ops, ∀ next, Takes (parsePipeOp uni) ([' '] ++ o.1) o.2 next) :
    Takes (parseStmt uni)
      ("let ".toList ++ (name.toList ++ (" = ".toList ++ (src.toList ++ (pipesText ops ++
        ";".toList))))) (.letStmt name (pipesExpr (.ident src) ops)) next := by
  obtain ⟨c, hc, hends⟩ : ∃ c, (pipesText ops).head?.or (some ';') = some c ∧
      endsSpan isIdentByte (some c) = true := by
    match ops with
    | [] => exact ⟨';', rfl, by decide⟩
    | o :: ops => exact ⟨'\n', rfl, by decide⟩
  have hexpr := takes_parseExpr (show Blanks [' '] by decide) hsrc (takes_pipes hops) hc hends
  refine (takes_let blanks_nil (takes_parseLetStmt name hname hexpr) rfl).of_eq ?_
  simp only [List.append_assoc]
  rfl

/-- A sink by its name. -/
theorem takes_parseSink {ws : List Char} (sinkName : String) {name : String}
    {sink : String → Sink} (hws : Blanks ws) (hname : IsToken isIdentByte name.toList)
    (hsink : (sinkName, sink) ∈ [("io.lora.tx", Sink.loraTx), ("io.lora.beacon", .loraBeacon)]) :
    Takes (parseSink uni)
      (ws ++ (sinkName.toList ++ ("(".toList ++ (name.toList ++ ")".toList)))) (sink name) next := by
  have hident : Takes parseIdent ([] ++ name.toList) name (some ')') :=
    takes_parseIdent blanks_nil hname (by decide)
  have harg : Takes (sinkArg uni sink) ("(".toList ++ (name.toList ++ ")".toList)) (sink name)
      next := by
    unfold sinkArg
    exact .bind_any takes_open (hident.bind (takes_close _).bind_pure rfl)
  have hdotted : IsToken isDottedByte sinkName.toList →
      Takes readDottedName ([] ++ sinkName.toList) sinkName (some '(') := fun hname =>
    takes_readDottedName blanks_nil hname (by decide)
  have hskip : Takes skipWs ws () (some 'i') := takes_skipWs hws (by decide)
  unfold parseSink
  simp only [List.mem_cons, Prod.mk.injEq, List.not_mem_nil, or_false] at hsink
  rcases hsink with ⟨rfl, rfl⟩ | ⟨rfl, rfl⟩
  all_goals
    exact hskip.bind ((hdotted ⟨by decide, by decide, by decide⟩).bind harg rfl) rfl

/-- A sink in an `emit` block. -/
theorem takes_parseEmitStep {ws w : List Char} {sinks : List Sink} {sink : Sink} (hws : Blanks ws)
    (hsink : Takes (parseSink uni) w sink (some ';')) (hhead : w.head? = some 'i') :
    Takes (parseEmitStep uni sinks) (ws ++ (w ++ ";".toList)) (.inl (sinks ++ [sink])) next := by
  have hskip : Takes skipWs ws () (some 'i') := takes_skipWs hws (by decide)
  have hopen : Takes (skipStr "\x7d") [] false (some 'i') :=
    takes_skipStr_other isWord_rbrace (by decide) (by decide)
  have hfirst : (w ++ ";".toList).head?.or next = some 'i' := by
    rw [List.head?_append, hhead]
    rfl
  unfold parseEmitStep
  exact hskip.bind (hopen.bind_nil (hsink.bind (takes_semicolon _).bind_pure rfl) hfirst) hfirst

/-- The end of an `emit` block. -/
theorem takes_parseEmitStep_end {ws : List Char} {sinks : List Sink} (hws : Blanks ws) :
    Takes (parseEmitStep uni sinks) (ws ++ "\x7d".toList) (.inr sinks) next := by
  have hskip : Takes skipWs ws () (some '\x7d') := takes_skipWs hws (by decide)
  unfold parseEmitStep
  exact hskip.bind ((takes_skipStr isWord_rbrace _).bind_last (.pure _ _)) rfl

/-- What follows `emit`, with one sink. -/
theorem takes_parseEmitStmt {w : List Char} {sink : Sink}
    (hsink : Takes (parseSink uni) w sink (some ';')) (hhead : w.head? = some 'i') :
    Takes (parseEmitStmt uni)
      ([' '] ++ "\x7b".toList ++ (([' '] ++ (w ++ ";".toList)) ++ ([' '] ++ "\x7d".toList)))
      (.emit [sink]) next := by
  have hopen : ∀ next, Takes (expect uni "\x7b") ([' '] ++ "\x7b".toList) () next := fun next =>
    takes_expect (by decide) isWord_lbrace (by decide) (by decide) rfl
  have hstep : Takes (parseEmitStep uni []) ([' '] ++ (w ++ ";".toList)) (.inl [sink])
      (some ' ') := takes_parseEmitStep (by decide) hsink hhead
  have hloop : Takes (loop (parseEmitStep uni) [])
      (([' '] ++ (w ++ ";".toList)) ++ ([' '] ++ "\x7d".toList)) [sink] next :=
    hstep.more (.done (takes_parseEmitStep_end (by decide))) rfl (by simp)
  unfold parseEmitStmt
  exact .bind_any hopen hloop.bind_pure

/-! ### Programs -/

theorem takes_isEnd (next : Option Char) : Takes isEnd [] next.isNone next := by
  intro pos s hs
  rw [List.nil_append, isEnd, ← hs]
  cases s with
  | nil => rfl
  | cons c s =>
    have hne : (utf8 (c :: s)).isEmpty = false := isEmpty_utf8 (List.cons_ne_nil c s)
    rw [hne]
    rfl

theorem takes_atEnd {ws : List Char} (hws : Blanks ws) (hnext : settled next = true) :
    Takes atEnd ws next.isNone next :=
  (takes_skipWs hws hnext).bind_last (takes_isEnd next)

/-- A statement of a program, and the statements after it. -/
theorem takes_stmt {ws w w' : List Char} {stmts stmts' : List Stmt} {stmt : Stmt} {c : Char}
    {next' : Option Char} (hws : Blanks ws) (hstmt : Takes (parseStmt uni) w stmt next')
    (hc : w.head? = some c) (hsettled : settled (some c) = true)
    (hrest : Takes (loop (parseProgramStep uni) (stmts ++ [stmt])) w' stmts' next)
    (hnext : w'.head?.or next = next') :
    Takes (loop (parseProgramStep uni) stmts) ((ws ++ w) ++ w') stmts' next := by
  have hend : Takes atEnd ws false (some c) := takes_atEnd hws hsettled
  have hstep : Takes (parseProgramStep uni stmts) (ws ++ w) (.inl (stmts ++ [stmt])) next' := by
    unfold parseProgramStep
    refine hend.bind hstmt.bind_pure ?_
    rw [hc, Option.some_or]
  refine hstep.more hrest hnext fun hnil => ?_
  rw [(List.append_eq_nil_iff.mp hnil).2] at hc
  exact nomatch hc

/-- The end of a program. -/
theorem takes_stmts_end {ws : List Char} {stmts : List Stmt} (hws : Blanks ws) :
    Takes (loop (parseProgramStep uni) stmts) ws stmts none := by
  have hend : Takes atEnd ws true none := takes_atEnd hws rfl
  refine .done ?_
  unfold parseProgramStep
  exact hend.bind_last (.pure _ _)

/-- A program is read off the text of its statements. -/
theorem takes_parseProgram {w : List Char} {stmts : List Stmt}
    (h : Takes (loop (parseProgramStep uni) []) w stmts none) :
    parse uni (String.ofList w) = .ok ⟨stmts⟩ (utf8 w).length [] := by
  have hprogram : Takes (parseProgram uni) w ⟨stmts⟩ none := h.bind_pure
  have hok := hprogram 0 [] rfl
  rw [List.append_nil, Nat.zero_add] at hok
  rw [parse, String.toList_ofList]
  exact hok

end Rivr.Core
