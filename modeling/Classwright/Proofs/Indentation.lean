import Classwright.Proofs.Scanning
import Classwright.Synthesis.ClassSource

/-!
# Indented fragments

A fragment that is indented loses the white space at the ends of its lines and the empty lines at
its own ends, and it ends with a line feed. None of this changes its tokens, whatever follows it.
-/

namespace Classwright.Source

open Text

/-- Whatever follows the text, its tokens come first. -/
def Spells (text : List Char) (ts : List Token) : Prop :=
  ∀ rest, words? (text ++ rest) = (words? rest).map (ts ++ ·)

namespace Spells

theorem nil : Spells [] [] := by
  intro rest
  rw [List.nil_append]
  cases Source.words? rest <;> rfl

theorem append {a b : List Char} {ts us : List Token} (ha : Spells a ts) (hb : Spells b us) :
    Spells (a ++ b) (ts ++ us) := by
  intro rest
  rw [List.append_assoc, ha, hb, Option.map_map]
  congr 1
  funext more
  exact (List.append_assoc ts us more).symm

theorem layout {c : Char} {a : List Char} {ts : List Token} (h : isLayout c = true)
    (ha : Spells a ts) : Spells (c :: a) ts := by
  intro rest
  rw [List.cons_append, words?_layout h]
  exact ha rest

/-- A whole text that spells tokens has these. -/
theorem words? {a : List Char} {ts : List Token} (h : Spells a ts) : words? a = some ts := by
  have := h []
  rw [List.append_nil, Source.words?, Option.map_some, List.append_nil] at this
  exact this

end Spells

/-! ### Lines without white space at their ends -/

/-- The first line of the text is white space. -/
def blankLine (cs : List Char) : Bool := (cs.takeWhile (· ≠ '\n')).all isBlank

theorem blankLine_cons {c : Char} {cs : List Char} (notFeed : c ≠ '\n') :
    blankLine (c :: cs) = (isBlank c && blankLine cs) := by
  rw [blankLine, List.takeWhile_cons_of_pos (by simpa using notFeed)]
  rfl

/-- What stands in front of a line. -/
def margin (level : Nat) (cs : List Char) : List Char :=
  if blankLine cs then [] else List.replicate (4 * level) ' '

/-- The rest of a fragment from a place within a line, as it is indented. Nothing is left of the
line feeds that end it. -/
def tidy (level : Nat) : List Char → List Char
  | [] => ['\n']
  | c :: cs =>
    if c = '\n' then '\n' :: (if cs.all (· = '\n') then [] else margin level cs ++ tidy level cs)
    else if blankLine (c :: cs) then tidy level cs
    else c :: tidy level cs

/-- The rest of a fragment from the start of a line. -/
def opened (level : Nat) (cs : List Char) : List Char :=
  if cs.all (· = '\n') then [] else margin level cs ++ tidy level cs

variable {level : Nat} {c : Char} {cs : List Char}

theorem tidy_feed : tidy level ('\n' :: cs) = '\n' :: opened level cs := by
  rw [tidy, if_pos rfl, opened]

theorem tidy_blank (notFeed : c ≠ '\n') (blank : blankLine (c :: cs) = true) :
    tidy level (c :: cs) = tidy level cs := by
  rw [tidy, if_neg notFeed, if_pos blank]

theorem tidy_keep (notFeed : c ≠ '\n') (blank : blankLine (c :: cs) = false) :
    tidy level (c :: cs) = c :: tidy level cs := by
  rw [tidy, if_neg notFeed, blank, if_neg Bool.false_ne_true]

/-- White space that ends a line is dropped. -/
theorem tidy_of_blankLine (blank : blankLine cs = true) :
    ∃ t, tidy level cs = '\n' :: t := by
  induction cs with
  | nil => exact ⟨[], rfl⟩
  | cons c cs ih =>
    by_cases feed : c = '\n'
    · subst feed
      exact ⟨_, tidy_feed⟩
    · rw [tidy_blank feed blank]
      rw [blankLine_cons feed, Bool.and_eq_true] at blank
      exact ih blank.2

theorem not_blankLine_of_firm {q : List Char} {d : Char} (line : '\n' ∉ q)
    (solid : isBlank d = false) : blankLine (q ++ d :: cs) = false := by
  induction q with
  | nil =>
    have notFeed : d ≠ '\n' := by
      rintro rfl
      cases solid
    rw [List.nil_append, blankLine_cons notFeed, solid, Bool.false_and]
  | cons c q ih =>
    rw [List.mem_cons, not_or] at line
    rw [List.cons_append, blankLine_cons (Ne.symm line.1), ih line.2, Bool.and_false]

/-- What stands on one line and does not end in white space stays as it is. -/
theorem tidy_firm {part : List Char} (firm : Firm part) :
    tidy level (part ++ cs) = part ++ tidy level cs := by
  obtain ⟨line, q, d, rfl, solid⟩ := firm
  rw [List.append_assoc, List.append_assoc]
  have notFeed : d ≠ '\n' := by
    rintro rfl
    cases solid
  induction q with
  | nil => exact tidy_keep notFeed (not_blankLine_of_firm List.not_mem_nil solid)
  | cons c q ih =>
    rw [List.cons_append, List.mem_cons, not_or] at line
    have kept : blankLine (c :: (q ++ ([d] ++ cs))) = false :=
      not_blankLine_of_firm (q := c :: q) (by
        intro feed
        rcases List.mem_cons.1 feed with feed | feed
        · exact line.1 feed
        · exact line.2 (List.mem_append_left _ feed)) solid
    rw [List.cons_append, tidy_keep (Ne.symm line.1) kept, ih line.2]
    rfl

/-- Up to white space nothing changes. -/
theorem tidy_similar (rest : List Char) : Similar cs (tidy level cs ++ rest) := by
  induction cs with
  | nil => exact .gap gap_nil (gap_cons.2 (by decide))
  | cons c cs ih =>
    by_cases feed : c = '\n'
    · subst feed
      rw [tidy_feed]
      exact .gap (gap_cons.2 (by decide)) (gap_cons.2 (by decide))
    · cases blank : blankLine (c :: cs) with
      | true =>
        rw [tidy_blank feed blank]
        rw [blankLine_cons feed, Bool.and_eq_true] at blank
        obtain ⟨t, same⟩ : ∃ t, tidy level cs = '\n' :: t := tidy_of_blankLine blank.2
        rw [same]
        exact .gap (gap_cons.2 blank.1) (gap_cons.2 (by decide))
      | false =>
        rw [tidy_keep feed blank]
        exact .cons ih

/-- The rest of a line is passed over as a whole. -/
theorem dropWhile_tidy (rest : List Char) :
    (tidy level cs ++ rest).dropWhile (· ≠ '\n')
      = tidy level (cs.dropWhile (· ≠ '\n')) ++ rest := by
  induction cs with
  | nil => rfl
  | cons c cs ih =>
    by_cases feed : c = '\n'
    · subst feed
      rw [tidy_feed, List.dropWhile_cons_of_neg (by simp), tidy_feed]
      rfl
    · rw [List.dropWhile_cons_of_pos (by simpa using feed)]
      cases blank : blankLine (c :: cs) with
      | true =>
        rw [tidy_blank feed blank]
        exact ih
      | false =>
        rw [tidy_keep feed blank, List.cons_append,
          List.dropWhile_cons_of_pos (by simpa using feed)]
        exact ih

theorem commentLength?_spaces {n : Nat} {cs : List Char} {k : Nat}
    (closed : commentLength? cs = some n) :
    commentLength? (List.replicate k ' ' ++ cs) = some (n + k) := by
  induction k with
  | zero => exact closed
  | succ k ih =>
    rw [List.replicate_succ, List.cons_append, commentLength?, ih]
    · rfl
    · simp

theorem commentLength?_feeds {cs : List Char} (feeds : cs.all (· = '\n') = true) :
    commentLength? cs = none := by
  induction cs with
  | nil => rfl
  | cons c cs ih =>
    rw [List.all_cons, Bool.and_eq_true, decide_eq_true_eq] at feeds
    rw [feeds.1, commentLength?, ih feeds.2]
    · rfl
    · simp

/-- A comment ends where it has ended before. -/
theorem commentLength?_tidy (level : Nat) {n : Nat} (closed : commentLength? cs = some n)
    (rest : List Char) :
    ∃ k, commentLength? (tidy level cs ++ rest) = some k ∧
      (tidy level cs ++ rest).drop k = tidy level (cs.drop n) ++ rest := by
  induction cs generalizing n with
  | nil => cases closed
  | cons c cs ih =>
    by_cases ends : c = '*' ∧ cs.head? = some '/'
    · obtain ⟨rfl, slash⟩ := ends
      obtain ⟨cs, rfl⟩ := List.head?_eq_some_iff.1 slash
      cases closed
      have firm : Firm ['*', '/'] := firm_of_solid (by simp [solid_slash, solid_star])
      rw [show '*' :: '/' :: cs = ['*', '/'] ++ cs from rfl, tidy_firm firm]
      exact ⟨2, rfl, rfl⟩
    · have go : ∀ cs', ¬ (c = '*' ∧ cs'.head? = some '/') →
          commentLength? (c :: cs') = (commentLength? cs').map (· + 1) := by
        intro cs' stay
        rw [commentLength?]
        intro t star slash
        exact stay ⟨star, by rw [slash]; rfl⟩
      rw [go cs ends] at closed
      obtain ⟨m, inner, rfl⟩ := Option.map_eq_some_iff.1 closed
      rw [List.drop_succ_cons]
      obtain ⟨k, there, same⟩ := ih inner
      by_cases feed : c = '\n'
      · subst feed
        have more : cs.all (· = '\n') = false := by
          refine Bool.eq_false_iff.2 fun feeds => ?_
          rw [commentLength?_feeds feeds] at inner
          cases inner
        rw [tidy_feed, opened, more, if_neg Bool.false_ne_true, List.cons_append, List.append_assoc,
          go _ (by simp)]
        unfold margin
        split
        · exact ⟨k + 1, by rw [List.nil_append, there]; rfl, same⟩
        · refine ⟨k + 4 * level + 1, by rw [commentLength?_spaces there]; rfl, ?_⟩
          rw [List.drop_succ_cons, Nat.add_comm, ← List.drop_drop, List.drop_left' (by simp)]
          exact same
      · cases blank : blankLine (c :: cs) with
        | true =>
          rw [tidy_blank feed blank]
          exact ⟨k, there, same⟩
        | false =>
          rw [tidy_keep feed blank, List.cons_append]
          refine ⟨k + 1, ?_, by rw [List.drop_succ_cons]; exact same⟩
          rw [go, there]
          · rfl
          · rintro ⟨star, slash⟩
            exact ends ⟨star, ((tidy_similar rest).head (by decide)).2 slash⟩

theorem spells_opened {ts : List Token} (scans : Scans cs ts)
    (h : Spells (tidy level cs) ts) : Spells (opened level cs) ts := by
  have allFeeds : ∀ {cs}, cs.all (· = '\n') = true → words? cs = some [] := by
    intro cs feeds
    induction cs with
    | nil => rw [words?]
    | cons c cs ih =>
      rw [List.all_cons, Bool.and_eq_true, decide_eq_true_eq] at feeds
      rw [feeds.1, words?_layout (by decide)]
      exact ih feeds.2
  have spaces : ∀ k, Spells (List.replicate k ' ' ++ tidy level cs) ts := by
    intro k
    induction k with
    | zero => exact h
    | succ k ih => exact .layout (by decide) ih
  unfold opened margin
  split
  · rename_i feeds
    have same := scans.words?.symm.trans (allFeeds feeds)
    rw [Option.some.inj same]
    exact .nil
  · split
    · exact h
    · exact spaces _

/-- A fragment has the same tokens when it has been indented. -/
theorem spells_tidy {ts : List Token} (scans : Scans cs ts) : Spells (tidy level cs) ts := by
  induction scans with
  | nil => exact .layout (by decide) .nil
  | @layout c cs ts layout scans ih =>
    by_cases feed : c = '\n'
    · subst feed
      rw [tidy_feed]
      exact .layout (by decide) (spells_opened scans ih)
    · cases blank : blankLine (c :: cs) with
      | true =>
        rw [tidy_blank feed blank]
        exact ih
      | false =>
        rw [tidy_keep feed blank]
        exact .layout layout ih
  | @line cs ts _ ih =>
    intro rest
    have firm : Firm ['/', '/'] := firm_of_solid (by simp [solid_slash])
    rw [show '/' :: '/' :: cs = ['/', '/'] ++ cs from rfl, tidy_firm firm]
    change words? ('/' :: '/' :: (tidy level cs ++ rest)) = _
    rw [words?_line, dropWhile_tidy]
    exact ih rest
  | @block cs n ts closed _ ih =>
    intro rest
    have firm : Firm ['/', '*'] := firm_of_solid (by simp [solid_slash, solid_star])
    rw [show '/' :: '*' :: cs = ['/', '*'] ++ cs from rfl, tidy_firm firm]
    change words? ('/' :: '*' :: (tidy level cs ++ rest)) = _
    obtain ⟨k, there, same⟩ := commentLength?_tidy level closed rest
    rw [words?_block there, same]
    exact ih rest
  | @token c cs n t ts piece _ ih =>
    intro rest
    obtain ⟨inside, _, firm, stable⟩ := pieceAt_token piece
    have split : c :: cs = (c :: cs.take n) ++ cs.drop n := by
      rw [List.cons_append, List.take_append_drop]
    rw [split, tidy_firm firm, List.append_assoc, List.cons_append,
      words?_token (stable _ (tidy_similar rest)),
      List.drop_left' (List.length_take_of_le inside), ih rest, Option.map_map]
    rfl

/-! ### Fragments are indented line by line -/

section Lines

open Synthesis (trimEnd indentLine)

variable {sep : Char}

theorem splitAt_ne_nil (cs : List Char) : splitAt sep cs ≠ [] := by
  cases cs with
  | nil => simp [splitAt]
  | cons c cs =>
    rw [splitAt]
    split
    · simp
    · split <;> simp

theorem splitAt_append (l z : List Char) :
    splitAt sep (l ++ sep :: z) = splitAt sep l ++ splitAt sep z := by
  induction l with
  | nil =>
    rw [List.nil_append, splitAt]
    exact if_pos rfl
  | cons c l ih =>
    rw [List.cons_append, splitAt, splitAt, ih]
    split
    · rfl
    · cases parts : splitAt sep l with
      | nil => exact absurd parts (splitAt_ne_nil l)
      | cons part parts => rfl

theorem splitAt_eq_singleton {l : List Char} (whole : sep ∉ l) : splitAt sep l = [l] := by
  induction l with
  | nil => rfl
  | cons c l ih =>
    rw [List.mem_cons, not_or] at whole
    rw [splitAt, if_neg (Ne.symm whole.1), ih whole.2]

theorem lines_line {l z : List Char} (line : '\n' ∉ l) :
    lines (l ++ '\n' :: z) = dropReturn l :: lines z := by
  unfold lines
  rw [splitAt_append, splitAt_eq_singleton line]
  cases parts : splitAt '\n' z with
  | nil => exact absurd parts (splitAt_ne_nil z)
  | cons part parts => rfl

theorem lines_last {l : List Char} (line : '\n' ∉ l) (some_ : l ≠ []) : lines l = [l] := by
  unfold lines
  rw [splitAt_eq_singleton line]
  cases l with
  | nil => exact absurd rfl some_
  | cons c l => rfl

theorem trimEnd_cons (c : Char) (l : List Char) :
    trimEnd (c :: l) = if (c :: l).all isBlank then [] else c :: trimEnd l := by
  have allBlank : (l.reverse.dropWhile isBlank).isEmpty = l.all isBlank := by
    rw [Bool.eq_iff_iff, List.isEmpty_iff, List.dropWhile_eq_nil_iff]
    simp
  rw [trimEnd, List.reverse_cons, List.dropWhile_append, allBlank, List.all_cons, Bool.and_comm]
  cases blanks : l.all isBlank with
  | false => simp [trimEnd]
  | true =>
    have none_ : trimEnd l = [] := by
      rw [trimEnd, List.isEmpty_iff.1 (allBlank.trans blanks), List.reverse_nil]
    cases blank : isBlank c with
    | true => simp [blank]
    | false => simp [blank, none_]

theorem trimEnd_isEmpty (l : List Char) : (trimEnd l).isEmpty = l.all isBlank := by
  induction l with
  | nil => rfl
  | cons c l ih =>
    rw [trimEnd_cons]
    cases blanks : (c :: l).all isBlank <;> rfl

theorem trimEnd_dropReturn (l : List Char) : trimEnd (dropReturn l) = trimEnd l := by
  unfold dropReturn
  split
  · rename_i last
    obtain ⟨q, rfl⟩ := List.getLast?_eq_some_iff.1 last
    rw [List.dropLast_concat, trimEnd, trimEnd, List.reverse_append, List.reverse_singleton,
      List.singleton_append, List.dropWhile_cons_of_pos (by decide)]
  · rfl

theorem blankLine_line {l s : List Char} (line : '\n' ∉ l) (ends : s.head?.getD '\n' = '\n') :
    blankLine (l ++ s) = l.all isBlank := by
  induction l with
  | nil =>
    cases s with
    | nil => rfl
    | cons c s =>
      have feed : c = '\n' := ends
      rw [feed]
      rfl
  | cons c l ih =>
    rw [List.mem_cons, not_or] at line
    rw [List.cons_append, blankLine_cons (Ne.symm line.1), ih line.2, List.all_cons]

/-- A line that ends here is left without the white space at its end. -/
theorem tidy_line {l s : List Char} (line : '\n' ∉ l) (ends : s.head?.getD '\n' = '\n') :
    tidy level (l ++ s) = trimEnd l ++ tidy level s := by
  induction l with
  | nil => rfl
  | cons c l ih =>
    have blank := blankLine_line line ends
    rw [List.mem_cons, not_or] at line
    have rest := ih line.2
    rw [trimEnd_cons]
    rw [List.cons_append] at blank ⊢
    cases blanks : (c :: l).all isBlank with
    | true =>
      rw [tidy_blank (Ne.symm line.1) (blank.trans blanks), rest]
      rw [List.all_cons, Bool.and_eq_true] at blanks
      rw [List.isEmpty_iff.1 ((trimEnd_isEmpty l).trans blanks.2)]
      rfl
    | false =>
      rw [tidy_keep (Ne.symm line.1) (blank.trans blanks), rest]
      rfl

theorem indentLine_eq {l s : List Char} (line : '\n' ∉ l) (ends : s.head?.getD '\n' = '\n') :
    indentLine level l = margin level (l ++ s) ++ trimEnd l ++ ['\n'] := by
  unfold indentLine margin
  dsimp only
  rw [trimEnd_isEmpty, blankLine_line line ends]
  cases blanks : l.all isBlank with
  | true => rw [List.isEmpty_iff.1 ((trimEnd_isEmpty l).trans blanks)]; rfl
  | false => simp

theorem indentLine_dropReturn (l : List Char) :
    indentLine level (dropReturn l) = indentLine level l := by
  unfold indentLine
  rw [trimEnd_dropReturn]

theorem tidy_feeds {feeds : List Char} (all : feeds.all (· = '\n') = true) :
    tidy level feeds = ['\n'] := by
  cases feeds with
  | nil => rfl
  | cons c feeds =>
    rw [List.all_cons, Bool.and_eq_true, decide_eq_true_eq] at all
    rw [all.1, tidy_feed, opened, if_pos all.2]

theorem ends_of_feeds {feeds : List Char} (all : feeds.all (· = '\n') = true) :
    feeds.head?.getD '\n' = '\n' := by
  cases feeds with
  | nil => rfl
  | cons c feeds =>
    rw [List.all_cons, Bool.and_eq_true, decide_eq_true_eq] at all
    exact all.1

theorem not_all_feeds {z : List Char} (some_ : z ≠ []) (last : z.getLast? ≠ some '\n')
    (s : List Char) : (z ++ s).all (· = '\n') = false := by
  refine Bool.eq_false_iff.2 fun feeds => last ?_
  rw [List.all_append, Bool.and_eq_true] at feeds
  have ends := List.all_eq_true.1 feeds.1 _ (List.getLast_mem some_)
  rw [List.getLast?_eq_some_getLast some_, of_decide_eq_true ends]

/-- The lines of a text that ends in no line feed, with the line feeds behind it. -/
theorem flatMap_indentLine {z feeds : List Char} (last : z.getLast? ≠ some '\n')
    (all : feeds.all (· = '\n') = true) :
    (lines z).flatMap (indentLine level) = opened level (z ++ feeds) := by
  by_cases feed : '\n' ∈ z
  · obtain ⟨l, z', same, line⟩ := List.eq_append_cons_of_mem feed
    subst same
    have some_ : z' ≠ [] := by
      rintro rfl
      exact last (by simp)
    have last' : z'.getLast? ≠ some '\n' := by
      intro same
      apply last
      rw [List.getLast?_append, List.getLast?_cons_of_ne_nil some_, same]
      rfl
    have rest := flatMap_indentLine last' all
    have split : l ++ '\n' :: z' ++ feeds = l ++ '\n' :: (z' ++ feeds) := by simp
    have more := not_all_feeds (by simp) last feeds
    rw [split] at more ⊢
    rw [lines_line line, List.flatMap_cons, indentLine_dropReturn, rest,
      indentLine_eq (s := '\n' :: (z' ++ feeds)) line rfl]
    conv => rhs; rw [opened, more, if_neg Bool.false_ne_true, tidy_line line rfl, tidy_feed]
    simp
  · by_cases some_ : z = []
    · subst some_
      rw [List.nil_append, opened, if_pos all]
      rfl
    · rw [lines_last feed some_, List.flatMap_singleton, indentLine_eq feed (ends_of_feeds all),
        opened, not_all_feeds some_ last, if_neg Bool.false_ne_true,
        tidy_line feed (ends_of_feeds all), tidy_feeds all, List.append_assoc]
termination_by z.length

theorem words?_dropFeeds (cs : List Char) :
    words? (cs.dropWhile (· == '\n')) = words? cs := by
  induction cs with
  | nil => rfl
  | cons c cs ih =>
    by_cases feed : c = '\n'
    · subst feed
      rw [List.dropWhile_cons_of_pos (by decide), ih, words?_layout (by decide)]
    · rw [List.dropWhile_cons_of_neg (by simpa using feed)]

/-- Nothing but line feeds is cut off at the end. -/
theorem trimLineFeeds_spec (cs : List Char) :
    ∃ feeds, feeds.all (· = '\n') = true ∧
      cs.dropWhile (· == '\n') = Synthesis.trimLineFeeds cs ++ feeds ∧
      (Synthesis.trimLineFeeds cs).getLast? ≠ some '\n' := by
  have split := List.takeWhile_append_dropWhile (p := (· == '\n'))
    (l := (cs.dropWhile (· == '\n')).reverse)
  refine ⟨((cs.dropWhile (· == '\n')).reverse.takeWhile (· == '\n')).reverse, ?_, ?_, ?_⟩
  · rw [List.all_reverse]
    refine List.all_eq_true.2 fun c member => ?_
    simpa using List.mem_takeWhile_imp member
  · rw [Synthesis.trimLineFeeds, ← List.reverse_append, split, List.reverse_reverse]
  · intro last
    rw [Synthesis.trimLineFeeds, List.getLast?_reverse] at last
    have never := List.head?_dropWhile_not (· == '\n') (cs.dropWhile (· == '\n')).reverse
    rw [last] at never
    cases never

/-- An indented fragment spells the tokens of the fragment. -/
theorem spells_indent (level : Nat) {fragment : String} {ts : List Token}
    (read : words? fragment.toList = some ts) :
    Spells (Synthesis.indent level fragment).toList ts := by
  obtain ⟨feeds, all, split, last⟩ := trimLineFeeds_spec fragment.toList
  rw [Synthesis.indent, String.toList_ofList, flatMap_indentLine last all, ← split]
  rw [← words?_dropFeeds] at read
  have scans := scans_of_words? read
  exact spells_opened scans (spells_tidy scans)

/-- Indenting a fragment changes none of its tokens, whatever line ends, comments and literals it
has. No comment of it goes on into the text behind, and nothing else does: what follows the fragment
has the tokens that it has on its own. -/
theorem scan_indent (level : Nat) {fragment : String} {l : Lexed}
    (scanned : scan fragment = .ok l) :
    (∃ l', scan (Synthesis.indent level fragment) = .ok l' ∧
      l'.tokens.map (·.token) = l.tokens.map (·.token)) ∧
    ∀ (behind : String) (ts : List Token),
      (∃ l', scan (Synthesis.indent level fragment ++ behind) = .ok l' ∧
        l'.tokens.map (·.token) = l.tokens.map (·.token) ++ ts) ↔
      ∃ r, scan behind = .ok r ∧ r.tokens.map (·.token) = ts := by
  have spells := spells_indent level (words?_eq_some_iff.2 ⟨l, scanned, rfl⟩)
  refine ⟨words?_eq_some_iff.1 spells.words?, fun behind ts => ?_⟩
  rw [← words?_eq_some_iff, ← words?_eq_some_iff, String.toList_append, spells]
  constructor
  · intro read
    obtain ⟨us, read, same⟩ := Option.map_eq_some_iff.1 read
    rw [read, List.append_cancel_left same]
  · intro read
    rw [read, Option.map_some]

end Lines

end Classwright.Source

namespace Classwright.Sample

open Source

/-- Two ends of lines, comments that end in white space, and a literal that looks like one. -/
def ragged : String := "\n\n  x = 1; // one  \r\n \t\r\n/* a  \n b */ s = \"a  // b\"; // \n\n"

theorem ragged_indented : Synthesis.indent 1 ragged
      = "      x = 1; // one\n\n    /* a\n     b */ s = \"a  // b\"; //\n" ∧
    ∃ l l', scan ragged = .ok l ∧ scan (Synthesis.indent 1 ragged) = .ok l' ∧
      l'.tokens.map (·.token) = l.tokens.map (·.token) ∧ l.tokens.length = 8 := by
  have length : (scan ragged).toOption.map (·.tokens.length) = some 8 := by decide +kernel
  cases scanned : scan ragged with
  | error errors =>
    rw [scanned] at length
    cases length
  | ok l =>
    rw [scanned] at length
    obtain ⟨l', scanned', same⟩ := (scan_indent 1 scanned).1
    exact ⟨by decide +kernel, l, l', rfl, scanned', same, Option.some.inj length⟩

end Classwright.Sample
