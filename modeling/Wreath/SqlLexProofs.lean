import Wreath.ByteStringProofs

/-! # SQL lexing — where a token begins and where it ends

The lexical rules of PostgreSQL that decide how a text is cut: words, quoted names, strings,
dollar quotes, line comments and nested block comments. The lexer takes one byte at a time,
so the tokens of a text are those of its pieces as long as one piece does not run into the
next (`Clean`, `Reads`). A number is a word, an operator is given by its characters, and a
prefix of a literal is a word in front of it. -/

namespace SqlLex

open ByteScan List Bool

inductive Token where
  | word (text : Bytes)
  | name (text : Bytes)
  | string (text : Bytes)
  | dollar (delimiter body : Bytes)
  | symbol (b : UInt8)
  deriving DecidableEq, Repr

/-- What the bytes so far may still become. -/
inductive Mode where
  | blank
  | word (text : Bytes)
  | name (text : Bytes)
  | nameEnd (text : Bytes)
  | string (text : Bytes)
  | stringEnd (text : Bytes)
  | dash
  | slash
  | line
  | block (depth : Nat) (last : UInt8)
  | dollarTag (tag : Bytes)
  | dollarBody (delimiter body : Bytes)
  deriving DecidableEq, Repr

variable (b : UInt8)

def isBlank : Bool := b = 32 || (9 ≤ b && b ≤ 13)

def isDigit : Bool := 48 ≤ b && b ≤ 57

/-- A letter, an underscore or a byte outside ASCII. -/
def isLetter : Bool := (97 ≤ b && b ≤ 122) || (65 ≤ b && b ≤ 90) || b = 95 || 128 ≤ b

def isWordByte : Bool := isLetter b || isDigit b

/-- A dollar sign goes on with a word, but not with a number. -/
def goesOn (text : Bytes) (b : UInt8) : Bool := isWordByte b || (b = 36 && !text.head?.all isDigit)

/-- A byte where no token has begun. -/
def start : List Token × Mode :=
  if isBlank b then ([], .blank)
  else if isWordByte b then ([], .word [b])
  else if b = 34 then ([], .name [])
  else if b = 39 then ([], .string [])
  else if b = 45 then ([], .dash)
  else if b = 47 then ([], .slash)
  else if b = 36 then ([], .dollarTag [])
  else ([.symbol b], .blank)

/-- A byte that ends what is pending. -/
def after (tokens : List Token) (b : UInt8) : List Token × Mode :=
  (tokens ++ (start b).1, (start b).2)

def step : Mode → UInt8 → List Token × Mode
  | .blank, b => start b
  | .word text, b =>
    if goesOn text b then ([], .word (text ++ [b]))
    else after [.word text] b
  | .name text, b =>
    if b = 34 then ([], .nameEnd text) else ([], .name (text ++ [b]))
  | .nameEnd text, b =>
    if b = 34 then ([], .name (text ++ [34])) else after [.name text] b
  | .string text, b =>
    if b = 39 then ([], .stringEnd text) else ([], .string (text ++ [b]))
  | .stringEnd text, b =>
    if b = 39 then ([], .string (text ++ [39])) else after [.string text] b
  | .dash, b => if b = 45 then ([], .line) else after [.symbol 45] b
  | .slash, b => if b = 42 then ([], .block 0 0) else after [.symbol 47] b
  | .line, b => if b = 10 ∨ b = 13 then ([], .blank) else ([], .line)
  | .block depth last, b =>
    if last = 42 ∧ b = 47 then
      match depth with
      | 0 => ([], .blank)
      | depth + 1 => ([], .block depth 0)
    else if last = 47 ∧ b = 42 then ([], .block (depth + 1) 0)
    else ([], .block depth b)
  | .dollarTag tag, b =>
    if b = 36 then ([], .dollarBody ([36] ++ tag ++ [36]) [])
    else if isLetter b || (isDigit b && tag ≠ []) then
      ([], .dollarTag (tag ++ [b]))
    else if tag = [] then after [.symbol 36] b
    else after [.symbol 36, .word tag] b
  | .dollarBody delimiter body, b =>
    if delimiter <:+ body ++ [b] then
      ([.dollar delimiter ((body ++ [b]).take ((body ++ [b]).length - delimiter.length))], .blank)
    else ([], .dollarBody delimiter (body ++ [b]))

def run : Mode → Bytes → List Token × Mode
  | m, [] => ([], m)
  | m, b :: bs => ((step m b).1 ++ (run (step m b).2 bs).1, (run (step m b).2 bs).2)

/-- The token that is pending when the text ends; `none` for one that is not terminated. -/
def flush : Mode → Option (List Token)
  | .blank | .line => some []
  | .word text => some [.word text]
  | .nameEnd text => some [.name text]
  | .stringEnd text => some [.string text]
  | .dash => some [.symbol 45]
  | .slash => some [.symbol 47]
  | .dollarTag [] => some [.symbol 36]
  | .dollarTag tag => some [.symbol 36, .word tag]
  | .name _ | .string _ | .block .. | .dollarBody .. => none

/-- The tokens of a text. -/
def lex (text : Bytes) : Option (List Token) :=
  (flush (run .blank text).2).map ((run .blank text).1 ++ ·)

/-! ## Names in the server -/

/-- A byte inside a character. -/
def isContinuation (b : UInt8) : Bool := 0x80 ≤ b && b ≤ 0xbf

/-- The last place up to `n` where a character ends. -/
def boundary (text : Bytes) : Nat → Nat
  | 0 => 0
  | n + 1 =>
    if isContinuation (text.getD (n + 1) 0) then boundary text n else n + 1

/-- A name is cut to 63 bytes, at the end of a character. -/
def truncated (text : Bytes) : Bytes :=
  if text.length ≤ 63 then text else text.take (boundary text 63)

def Token.truncated : Token → Token
  | .name text => .name (SqlLex.truncated text)
  | token => token

theorem boundary_le (text : Bytes) (n : Nat) : boundary text n ≤ n := by
  induction n with
  | zero => exact Nat.le_refl 0
  | succ n ih =>
    rw [boundary]
    split
    · omega
    · exact le_rfl

variable {text : Bytes}

/-- Only a short name stays as it is. -/
theorem truncated_eq_self : truncated text = text ↔ text.length ≤ 63 := by
  rw [truncated]
  split
  · exact iff_of_true rfl ‹_›
  · rename_i hlong
    refine iff_of_false (fun h => ?_) hlong
    have hlen := congrArg List.length h
    have hle := boundary_le text 63
    rw [length_take] at hlen
    omega

/-! ## Pieces of a text -/

theorem run_append (m : Mode) (xs ys : Bytes) :
    run m (xs ++ ys) = ((run m xs).1 ++ (run (run m xs).2 ys).1, (run (run m xs).2 ys).2) := by
  induction xs generalizing m with
  | nil => rfl
  | cons b xs ih =>
    rw [cons_append, run, run, ih, append_assoc]

/-- A byte that ends every word, name and dash. -/
def isBreak (b : UInt8) : Bool := !isWordByte b && b ≠ 34 && b ≠ 36 && b ≠ 45

/-- A mode in which the pending token may end. -/
def Settled (m : Mode) (tokens : List Token) : Prop :=
  m = .blank ∧ tokens = [] ∨ (∃ text, m = .word text ∧ tokens = [.word text])
    ∨ (∃ text, m = .nameEnd text ∧ tokens = [.name text])
    ∨ m = .dash ∧ tokens = [.symbol 45]

variable {tokens : List Token} {m : Mode}

theorem Settled.flush (h : Settled m tokens) : flush m = some tokens := by
  rcases h with ⟨rfl, rfl⟩ | ⟨text, rfl, rfl⟩ | ⟨text, rfl, rfl⟩ | ⟨rfl, rfl⟩ <;> rfl

variable {b : UInt8}

theorem Settled.step (h : Settled m tokens) (hb : isBreak b = true) :
    step m b = after tokens b := by
  simp only [isBreak, and_eq_true, not_eq_true', decide_eq_true_eq] at hb
  obtain ⟨⟨⟨hword, hquote⟩, hdollar⟩, hdash⟩ := hb
  rcases h with ⟨rfl, rfl⟩ | ⟨text, rfl, rfl⟩ | ⟨text, rfl, rfl⟩ | ⟨rfl, rfl⟩
  · rfl
  · have hstop : goesOn text b = false := by
      rw [goesOn, hword, decide_eq_false hdollar]
      rfl
    rw [SqlLex.step, if_neg (by rw [hstop]; decide)]
  · rw [SqlLex.step, if_neg hquote]
  · rw [SqlLex.step, if_neg hdash]

/-- A text that ends between tokens. -/
def Clean (text : Bytes) (tokens : List Token) : Prop := run .blank text = (tokens, .blank)

/-- A text whose last token may end where it ends. -/
def Reads (text : Bytes) (tokens : List Token) : Prop :=
  ∃ before last, Settled (run .blank text).2 last
    ∧ (run .blank text).1 = before ∧ before ++ last = tokens

theorem Clean.reads (h : Clean text tokens) : Reads text tokens :=
  ⟨tokens, [], .inl ⟨by rw [h], rfl⟩, by rw [h], append_nil _⟩

theorem Reads.lex (h : Reads text tokens) : lex text = some tokens := by
  obtain ⟨before, last, hset, hrun, rfl⟩ := h
  rw [SqlLex.lex, hset.flush, hrun]
  rfl

variable {x y : Bytes} {xs : List Token} {ys : List Token}

theorem Clean.append (hx : Clean x xs) (hy : Clean y ys) : Clean (x ++ y) (xs ++ ys) := by
  rw [Clean, run_append, hx, hy]

theorem Clean.append_reads (hx : Clean x xs) (hy : Reads y ys) : Reads (x ++ y) (xs ++ ys) := by
  obtain ⟨before, last, hset, hrun, rfl⟩ := hy
  refine ⟨xs ++ before, last, ?_, ?_, append_assoc ..⟩
  · rw [run_append, hx]
    exact hset
  · rw [run_append, hx, hrun]

/-- What follows begins with a byte that ends the last token. -/
theorem Reads.run_append (hx : Reads x xs) (hy : y.head?.any isBreak = true) :
    run .blank (x ++ y) = (xs ++ (run .blank y).1, (run .blank y).2) := by
  obtain ⟨before, last, hset, hrun, rfl⟩ := hx
  cases y with
  | nil => cases hy
  | cons b y =>
    rw [SqlLex.run_append, hrun, run, run, hset.step hy, after]
    simp only [append_assoc]
    rfl

theorem Reads.append (hx : Reads x xs) (hy : Reads y ys) (hbreak : y.head?.any isBreak = true) :
    Reads (x ++ y) (xs ++ ys) := by
  obtain ⟨before, last, hset, hrun, rfl⟩ := hy
  refine ⟨xs ++ before, last, ?_, ?_, append_assoc ..⟩
  · rw [hx.run_append hbreak]
    exact hset
  · rw [hx.run_append hbreak, hrun]

theorem Reads.append_clean (hx : Reads x xs)
    (hy : Clean y ys) (hbreak : y.head?.any isBreak = true) : Clean (x ++ y) (xs ++ ys) := by
  rw [Clean, hx.run_append hbreak, hy]

/-- The same for a fixed text, which is lexed on the spot. -/
theorem Reads.then (hx : Reads x xs)
    (hy : (run .blank y, y.head?.any isBreak) = ((ys, .blank), true)) : Clean (x ++ y) (xs ++ ys) :=
  hx.append_clean (congrArg Prod.fst hy) (congrArg Prod.snd hy)

/-! ## Words, names and comments -/

theorem start_word (h : isWordByte b = true) : start b = ([], .word [b]) := by
  have hblank : isBlank b = false := by
    rw [isWordByte] at h
    simp only [isLetter, isDigit, isBlank, or_eq_true, and_eq_true,
      decide_eq_true_eq, UInt8.le_iff_toNat_le, ← UInt8.toNat_inj] at h ⊢
    simp at h ⊢
    omega
  rw [start, if_neg (by rw [hblank]; decide), if_pos h]

theorem run_word (more : Bytes) (h : more.all isWordByte = true) :
    run (.word text) more = ([], .word (text ++ more)) := by
  induction more generalizing text with
  | nil => rw [append_nil]; rfl
  | cons b more ih =>
    obtain ⟨hb, hmore⟩ := (all_cons.symm.trans h |> and_eq_true_iff.mp)
    have hgoes : goesOn text b = true := by
      rw [goesOn, hb]
      rfl
    rw [run, step, if_pos hgoes, ih hmore, append_assoc]
    rfl

theorem reads_word (hne : text ≠ [])
    (h : text.all isWordByte = true) : Reads text [.word text] := by
  cases text with
  | nil => exact absurd rfl hne
  | cons b text =>
    obtain ⟨hb, htext⟩ := (all_cons.symm.trans h |> and_eq_true_iff.mp)
    have hrun : run .blank (b :: text) = ([], .word (b :: text)) := by
      rw [run, step, start_word hb, run_word text htext]
      rfl
    exact ⟨[], _, .inr (.inl ⟨b :: text, by rw [hrun], rfl⟩), by rw [hrun], rfl⟩

/-- A name in quotes, with the quotes inside it doubled. -/
def quoted (text : Bytes) : Bytes :=
  [34] ++ (text.flatMap fun b => if b = 34 then [34, 34] else [b]) ++ [34]

theorem run_name (text acc : Bytes) :
    run (.name acc) (text.flatMap fun b => if b = 34 then [34, 34] else [b])
      = ([], .name (acc ++ text)) := by
  induction text generalizing acc with
  | nil => rw [append_nil]; rfl
  | cons b text ih =>
    have hb : run (.name acc) (if b = 34 then [34, 34] else [b]) = ([], .name (acc ++ [b])) := by
      by_cases hquote : b = 34
      · rw [if_pos hquote, hquote]
        rfl
      · rw [if_neg hquote, run, step, if_neg hquote]
        rfl
    rw [flatMap_cons, run_append, hb, ih, append_assoc]
    rfl

/-- **NAMES**: whatever is in it, a quoted name is one token. -/
theorem reads_quoted (text : Bytes) : Reads (quoted text) [.name text] := by
  have hrun : run .blank (quoted text) = ([], .nameEnd text) := by
    have hopen : run .blank [34] = ([], .name []) := rfl
    rw [quoted, run_append, run_append, hopen, run_name]
    rfl
  exact ⟨[], _, .inr (.inr (.inl ⟨text, by rw [hrun], rfl⟩)), by rw [hrun], rfl⟩

/-- A comment goes on to the end of the line. -/
theorem run_line (h : ∀ b ∈ text, b ≠ 10 ∧ b ≠ 13) : run .line text = ([], .line) := by
  induction text with
  | nil => rfl
  | cons b text ih =>
    obtain ⟨hb, hb'⟩ := h b mem_cons_self
    rw [run, step, if_neg (by rintro (h | h) <;> contradiction),
      ih fun c hc => h c (mem_cons_of_mem _ hc)]
    rfl

/-! ## Dollar quotes -/

theorem run_dollar_inside {delimiter : Bytes} (text acc : Bytes)
    (h : ∀ p, p <+: text → p ≠ [] → ¬delimiter <:+ acc ++ p) :
    run (.dollarBody delimiter acc) text = ([], .dollarBody delimiter (acc ++ text)) := by
  induction text generalizing acc with
  | nil => rw [append_nil]; rfl
  | cons b text ih =>
    have hb : ¬delimiter <:+ acc ++ [b] := h [b] (prefix_append [b] text) (cons_ne_nil _ _)
    rw [run, step, if_neg hb, ih, append_assoc]
    · rfl
    · intro p hp _
      rw [append_assoc]
      exact h (b :: p) ((prefix_cons_inj b).mpr hp) (cons_ne_nil _ _)

/-- The first occurrence of a delimiter is the one at the end. -/
def EndsFirst (delimiter body : Bytes) : Prop :=
  ∀ p, p <+: body ++ delimiter → p ≠ body ++ delimiter → ¬delimiter <:+ p

/-- **DOLLAR QUOTES**: a body up to the first delimiter is one token. -/
theorem run_dollar {delimiter body : Bytes} (hne : delimiter ≠ []) (h : EndsFirst delimiter body) :
    run (.dollarBody delimiter []) (body ++ delimiter) = ([.dollar delimiter body], .blank) := by
  obtain rfl | ⟨init, last, rfl⟩ := eq_nil_or_concat' delimiter
  · exact absurd rfl hne
  have hins := run_dollar_inside (body ++ init) [] fun p hp _ => by
    refine h p (hp.trans ?_) fun heq => ?_
    · rw [← append_assoc]
      exact prefix_append _ _
    · have hle := hp.length_le
      rw [heq] at hle
      simp only [length_append, length_singleton] at hle
      omega
  rw [← append_assoc, run_append, hins]
  simp only [nil_append, run, step, append_assoc]
  rw [if_pos (suffix_append body (init ++ [last]))]
  simp only [append_nil, length_append, Nat.add_sub_cancel]
  rw [take_left]

/-- A delimiter that is not in the body, and does not begin in it. -/
theorem endsFirst {tag body : Bytes} (htag : (36 : UInt8) ∉ tag)
    (hbody : ¬[36] ++ tag ++ [36] <:+: body) (hend : ¬[36] ++ tag <:+ body) :
    EndsFirst ([36] ++ tag ++ [36]) body := by
  intro p hp hne hsuffix
  rw [← append_assoc, prefix_concat_iff] at hp
  rcases hp with heq | hp
  · exact hne (by rw [heq, append_assoc])
  -- an occurrence in what stands before the last byte of the delimiter
  rcases infix_append_iff.mp (hsuffix.isInfix.trans hp.isInfix)
    with hin | hin | ⟨left, right, hsplit, hleft, hright⟩
  · exact hbody hin
  · have hle := hin.length_le
    simp only [length_append, length_singleton] at hle
    omega
  · obtain rfl | ⟨init, last, rfl⟩ := eq_nil_or_concat' right
    · rw [append_nil] at hsplit
      exact hbody (hsplit ▸ hleft.isInfix)
    · rw [← append_assoc] at hsplit
      obtain ⟨hinit, hlast⟩ := append_inj' hsplit rfl
      obtain rfl := (singleton_inj.mp hlast).symm
      cases init with
      | nil =>
        rw [append_nil] at hinit
        exact hend (hinit ▸ hleft)
      | cons c init =>
        obtain ⟨-, hright⟩ := cons_prefix_cons.mp hright
        exact htag (hright.subset (mem_append_right _ (mem_singleton_self _)))

/-- What has no blank in it is on one side of a blank. -/
theorem infix_sides {left right : Bytes} (hb : b ∉ text)
    (h : text <:+: left ++ b :: right) : text <:+: left ∨ text <:+: right := by
  rcases infix_append_iff.mp h with hin | hin | ⟨l, r, rfl, hl, hr⟩
  · exact .inl hin
  · rcases infix_cons_iff.mp hin with hpre | hin
    · cases text with
      | nil => exact .inl ( nil_infix)
      | cons c text =>
        obtain ⟨rfl, -⟩ := cons_prefix_cons.mp hpre
        exact absurd mem_cons_self hb
    · exact .inr hin
  · cases r with
    | nil =>
      rw [append_nil]
      exact .inl hl.isInfix
    | cons c r =>
      obtain ⟨rfl, -⟩ := cons_prefix_cons.mp hr
      exact absurd (mem_append_right _ mem_cons_self) hb

/-- An opening delimiter. -/
theorem run_dollar_open {first : UInt8} {tag : Bytes}
    (hfirst : isLetter first = true) (htag : tag.all isWordByte = true) :
    run .blank ([36] ++ first :: tag ++ [36])
      = ([], .dollarBody ([36] ++ first :: tag ++ [36]) []) := by
  have hne : ∀ {b : UInt8}, isWordByte b = true → b ≠ 36 := by
    rintro b hb rfl
    cases hb
  have htags : ∀ (more acc : Bytes), more.all isWordByte = true → acc ≠ [] →
      run (.dollarTag acc) more = ([], .dollarTag (acc ++ more)) := by
    intro more
    induction more with
    | nil => intro acc _ _; rw [append_nil]; rfl
    | cons b more ih =>
      intro acc hmore hacc
      obtain ⟨hb, hmore⟩ := all_cons.symm.trans hmore |> and_eq_true_iff.mp
      have hgoes : (isLetter b || (isDigit b && decide (acc ≠ []))) = true := by
        rw [decide_eq_true hacc, Bool.and_true]
        exact hb
      rw [run, step, if_neg (hne hb), if_pos hgoes, ih _ hmore (by simp), append_assoc]
      rfl
  have hopen : run .blank ([36] ++ [first]) = ([], .dollarTag [first]) := by
    have hword : isWordByte first = true := by rw [isWordByte, hfirst]; rfl
    show run (.dollarTag []) [first] = _
    rw [run, step, if_neg (hne hword), if_pos (by rw [hfirst]; rfl)]
    rfl
  rw [show [36] ++ first :: tag ++ [36] = [36] ++ [first] ++ (tag ++ [36]) by
      simp, run_append, hopen, run_append,
    htags tag [first] htag (cons_ne_nil _ _)]
  rfl

/-! ## Text between the tokens of a template -/

/-- A text that may be left out, and otherwise ends the token before it. -/
def Follows (text : Bytes) (tokens : List Token) : Prop :=
  text = [] ∧ tokens = [] ∨ Reads text tokens ∧ text.head?.any isBreak = true

theorem Reads.follow (hx : Reads x xs) (hy : Follows y ys) : Reads (x ++ y) (xs ++ ys) := by
  rcases hy with ⟨rfl, rfl⟩ | ⟨hy, hbreak⟩
  · rwa [append_nil, append_nil]
  · exact hx.append hy hbreak

/-- A text that ends with a word. -/
theorem reads_of_run {word : Bytes} {before : List Token}
    (h : run .blank text = (before, .word word))
    (htokens : before ++ [.word word] = tokens) : Reads text tokens :=
  ⟨before, _, .inr (.inl ⟨word, by rw [h], rfl⟩), by rw [h], htokens⟩

theorem reads_comma (hx : Reads x xs) (hy : Reads y ys) :
    Reads (x ++ ascii ", " ++ y) (xs ++ [.symbol 44] ++ ys) := by
  rw [append_assoc, append_assoc]
  have hcomma : Clean (ascii ", ") [.symbol 44] := rfl
  exact hx.append (hcomma.append_reads hy) rfl

/-- A list with commas. -/
theorem reads_intercalate {texts : List Bytes} {tokens : List (List Token)}
    (h : List.Forall₂ Reads texts tokens) :
    Reads ((ascii ", ").intercalate texts) ([.symbol 44].intercalate tokens) := by
  induction h with
  | nil => exact (show Clean [] [] from rfl).reads
  | @cons x xs texts tokens hx hrest ih =>
    cases hrest with
    | nil =>
      rw [intercalate_singleton, intercalate_singleton]
      exact hx
    | @cons y ys texts tokens hy hrest =>
      rw [intercalate_cons_cons, intercalate_cons_cons]
      exact reads_comma hx ih

/-! ## Text of a plain alphabet -/

/-- Words, commas, blanks, points and dashes. -/
def isPlain (b : UInt8) : Bool := isWordByte b || b = 44 || b = 32 || b = 46 || b = 45

/-- The words of a text and the marks between them; a word may have begun already. -/
def plainFrom : Option Bytes → Bytes → List Token
  | word, [] => word.toList.map .word
  | word, b :: text =>
    if isWordByte b then plainFrom (some (word.getD [] ++ [b])) text
    else word.toList.map .word ++ (if b ∈ ascii ",.-[]" then [.symbol b] else [])
      ++ plainFrom none text

/-- **PLAIN TOKENS**: words, commas, points, dashes and brackets, and nothing else. -/
def plainTokens (text : Bytes) : List Token := plainFrom none text

/-- The same, with what is pending. -/
def begun : Mode → Bytes → List Token
  | .word word, text => plainFrom (some word) text
  | .dash, text => .symbol 45 :: plainTokens text
  | _, text => plainTokens text

/-- Two dashes, the first of which may have come already. -/
def Commented (m : Mode) (text : Bytes) : Prop :=
  m = .dash ∧ text.head? = some 45 ∨ [45, 45] <:+: text

def Pending (m : Mode) : Prop := m = .blank ∨ (∃ text, m = .word text) ∨ m = .dash

theorem Pending.settled (h : Pending m) : Settled m (begun m []) := by
  rcases h with rfl | ⟨text, rfl⟩ | rfl
  · exact .inl ⟨rfl, rfl⟩
  · exact .inr (.inl ⟨text, rfl, rfl⟩)
  · exact .inr (.inr (.inr ⟨rfl, rfl⟩))

theorem plain_start (text : Bytes) (h : isPlain b = true) :
    Pending (start b).2 ∧ ((start b).2 = .dash ↔ b = 45)
      ∧ (start b).1 ++ begun (start b).2 text = plainTokens (b :: text) := by
  by_cases hword : isWordByte b = true
  · rw [start_word hword]
    refine ⟨.inr (.inl ⟨_, rfl⟩), ⟨nofun, ?_⟩, ?_⟩
    · rintro rfl
      cases hword
    · rw [plainTokens, plainFrom, if_pos hword]
      rfl
  · rw [isPlain, Bool.eq_false_iff.mpr hword] at h
    simp only [Bool.false_or, Bool.or_eq_true, decide_eq_true_eq] at h
    rcases h with ((rfl | rfl) | rfl) | rfl
    · exact ⟨.inl rfl, by decide, rfl⟩
    · exact ⟨.inl rfl, by decide, rfl⟩
    · exact ⟨.inl rfl, by decide, rfl⟩
    · exact ⟨.inr (.inr rfl), by decide, rfl⟩

theorem plain_step (text : Bytes) (hm : Pending m) (h : isPlain b = true)
    (hdash : ¬(m = .dash ∧ b = 45)) :
    Pending (step m b).2 ∧ ((step m b).2 = .dash ↔ b = 45)
      ∧ (step m b).1 ++ begun (step m b).2 text = begun m (b :: text) := by
  obtain ⟨hpend, hnext, hstart⟩ := plain_start text h
  rcases hm with rfl | ⟨word, rfl⟩ | rfl
  · exact ⟨hpend, hnext, hstart⟩
  · have hgoes : goesOn word b = isWordByte b := by
      have hdollar : b ≠ 36 := by
        rintro rfl
        cases h
      rw [goesOn, decide_eq_false hdollar, Bool.false_and, Bool.or_false]
    rw [step, hgoes]
    split
    · rename_i hword
      refine ⟨.inr (.inl ⟨_, rfl⟩), ⟨nofun, ?_⟩, ?_⟩
      · rintro rfl
        cases hword
      · exact (if_pos hword).symm
    · rename_i hword
      refine ⟨hpend, hnext, ?_⟩
      rw [after, append_assoc, hstart]
      simp only [begun, plainTokens, plainFrom, if_neg hword]
      rfl
  · rw [step, if_neg fun hb => hdash ⟨rfl, hb⟩]
    refine ⟨hpend, hnext, ?_⟩
    rw [after, append_assoc, hstart]
    rfl

/-- **PLAIN TEXT**: it reads as its plain tokens and is left where the last may end, unless
    two dashes have opened a comment. -/
theorem run_plain (h : text.all isPlain = true) (hm : Pending m) :
    (¬Commented m text ∧ ∃ last, Settled (run m text).2 last
        ∧ (run m text).1 ++ last = begun m text)
      ∨ (Commented m text ∧ (run m text).2 = .line
        ∧ (run m text).1.length ≤ (begun m text).length) := by
  induction text generalizing m with
  | nil =>
    refine .inl ⟨?_, _, hm.settled, rfl⟩
    rintro (⟨-, h⟩ | h)
    · cases h
    · exact nomatch infix_nil.mp h
  | cons b text ih =>
    obtain ⟨hb, htext⟩ := all_cons.symm.trans h |> and_eq_true_iff.mp
    by_cases hdash : m = .dash ∧ b = 45
    · obtain ⟨rfl, rfl⟩ := hdash
      have hline : run .line text = ([], .line) := by
        refine run_line fun c hc => ?_
        have hplain := all_eq_true.mp htext c hc
        constructor
        · rintro rfl
          cases hplain
        · rintro rfl
          cases hplain
      have hrun : run .dash (45 :: text) = ([], .line) := hline
      rw [hrun]
      exact .inr ⟨.inl ⟨rfl, rfl⟩, rfl, Nat.zero_le _⟩
    · obtain ⟨hpend, hnext, hbegun⟩ := plain_step text hm hb hdash
      have hcommented : Commented (step m b).2 text ↔ Commented m (b :: text) := by
        constructor
        · rintro (⟨hmode, hhead⟩ | hin)
          · obtain rfl := hnext.mp hmode
            right
            cases text with
            | nil => cases hhead
            | cons c text =>
              cases hhead
              exact (prefix_append [45, 45] text).isInfix
          · exact .inr (hin.trans (suffix_cons b text).isInfix)
        · rintro (⟨rfl, hhead⟩ | hin)
          · exact absurd ⟨rfl, Option.some.inj hhead⟩ hdash
          · rcases infix_cons_iff.mp hin with hpre | hin
            · obtain ⟨rfl, hsecond⟩ := cons_prefix_cons.mp hpre
              cases text with
              | nil => exact nomatch prefix_nil.mp hsecond
              | cons c text =>
                obtain ⟨rfl, -⟩ := cons_prefix_cons.mp hsecond
                exact .inl ⟨hnext.mpr rfl, rfl⟩
            · exact .inr hin
      rw [run, ← hcommented, ← hbegun]
      rcases ih htext hpend with ⟨hno, last, hset, htokens⟩ | ⟨hyes, hline, hlen⟩
      · exact .inl ⟨hno, last, hset, by rw [append_assoc, htokens]⟩
      · refine .inr ⟨hyes, hline, ?_⟩
        rw [length_append, length_append]
        exact Nat.add_le_add_left hlen _

end SqlLex
