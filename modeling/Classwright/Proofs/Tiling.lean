import Classwright.Proofs.Scanning
import Mathlib.Data.List.Induction

/-!
# Tokens tile their source

The stretches of the tokens follow one another without overlapping, and between them there is
nothing but white space and complete comments. A stretch starts and stops between characters, and
its line and column are those of its start. Where a source has no tokens, the stretches of its
errors stand like this, too.
-/

namespace Classwright

/-! ### Positions -/

namespace Position

/-- `p` is an earlier point of a source than `q`, also by line and column. -/
structure Before (p q : Position) : Prop where
  offset : p.offset < q.offset
  place : p.line < q.line ∨ p.line = q.line ∧ p.column < q.column

theorem Before.trans {p q r : Position} (h : p.Before q) (h' : q.Before r) : p.Before r := by
  obtain ⟨offset, place⟩ := h
  obtain ⟨offset', place'⟩ := h'
  exact ⟨by omega, by omega⟩

theorem before_step (p : Position) (c : Char) : p.Before (p.step c) := by
  have size := c.utf8Size_pos
  unfold step
  split
  · exact ⟨by dsimp only; omega, .inl (Nat.lt_succ_self _)⟩
  · exact ⟨by dsimp only; omega, .inr ⟨rfl, Nat.lt_succ_self _⟩⟩

theorem before_advance (p : Position) {s : List Char} (some_ : s ≠ []) :
    p.Before (p.advance s) := by
  induction s using List.reverseRecOn with
  | nil => exact absurd rfl some_
  | append_singleton s c ih =>
    rw [advance_append]
    cases s with
    | nil => exact p.before_step c
    | cons d s => exact (ih (by simp)).trans (before_step _ c)

theorem before_behind (s : List Char) {t : List Char} (some_ : t ≠ []) :
    (behind s).Before (behind (s ++ t)) := by
  rw [behind_append]
  exact before_advance _ some_

theorem offset_behind_le (s t : List Char) : (behind s).offset ≤ (behind (s ++ t)).offset := by
  cases t with
  | nil => rw [List.append_nil]
  | cons c t => exact (before_behind s (List.cons_ne_nil c t)).offset.le

end Position

/-! ### Stretches of a source -/

namespace Span

/-- The stretch covers this text of the source, and its line and column are those of its start;
they are told in words of 32 bits. -/
def Holds (s : Span) (source text : String) : Prop :=
  ∃ before after : String, source = before ++ text ++ after ∧
    s.start = before.utf8ByteSize ∧ s.stop = (before ++ text).utf8ByteSize ∧
    s.line = 1 + before.toList.count '\n' ∧
    s.column = 1 + (before.toList.reverse.takeWhile (· ≠ '\n')).length ∧
    s.place = (.ofNat s.line, .ofNat s.column)

/-- `s` starts in front of `t` and ends no later than `t` starts. -/
structure Before (s t : Span) : Prop where
  start : s.start < t.start
  apart : s.stop ≤ t.start
  place : s.line < t.line ∨ s.line = t.line ∧ s.column < t.column

end Span

namespace Source

open Position (behind)

/-- White space and complete comments, in front of `rest`. -/
inductive Blank (rest : List Char) : List Char → Prop
  | nil : Blank rest []
  | layout {c : Char} {s : List Char} : isLayout c = true → Blank rest s → Blank rest (c :: s)
  | line {body s : List Char} : '\n' ∉ body → (∀ c ∈ (s ++ rest).head?, c = '\n') →
      Blank rest s → Blank rest ('/' :: '/' :: (body ++ s))
  | block {body s : List Char} : ¬ ['*', '/'] <:+: body ++ ['*'] → Blank rest s →
      Blank rest ('/' :: '*' :: (body ++ '*' :: '/' :: s))

theorem Blank.append {rest s t : List Char} (h : Blank (t ++ rest) s) (h' : Blank rest t) :
    Blank rest (s ++ t) := by
  induction h with
  | nil => exact h'
  | layout layout _ ih => exact .layout layout ih
  | @line body s noFeed ends _ ih =>
    rw [List.cons_append, List.cons_append, List.append_assoc]
    exact .line noFeed (by rwa [List.append_assoc]) ih
  | @block body s unclosed _ ih =>
    simp only [List.cons_append, List.append_assoc]
    exact .block unclosed ih

/-- Parts of a text and the stretches that they have behind `before`, in order. -/
inductive InOrder : List Char → List Char → List Span → Prop
  | done {before s : List Char} : InOrder before s []
  | skip {before s t : List Char} {spans : List Span} : InOrder (before ++ s) t spans →
      InOrder before (s ++ t) spans
  | part {before s t : List Char} {spans : List Span} : s ≠ [] → InOrder (before ++ s) t spans →
      InOrder before (s ++ t) (.between (behind before) (behind (before ++ s)) :: spans)

namespace InOrder

variable {before text : List Char} {spans : List Span}

theorem located (h : InOrder before text spans) {span : Span} (member : span ∈ spans) :
    ∃ skipped part after, text = skipped ++ part ++ after ∧ part ≠ [] ∧
      span = .between (behind (before ++ skipped)) (behind (before ++ skipped ++ part)) := by
  induction h with
  | done => cases member
  | @skip before s t spans _ ih =>
    obtain ⟨skipped, part, after, rfl, some_, rfl⟩ := ih member
    exact ⟨s ++ skipped, part, after, by simp only [List.append_assoc], some_,
      by simp only [List.append_assoc]⟩
  | @part before s t spans some_ _ ih =>
    rcases List.mem_cons.1 member with rfl | member
    · exact ⟨[], s, t, rfl, some_, by rw [List.append_nil]⟩
    · obtain ⟨skipped, part, after, rfl, some_, rfl⟩ := ih member
      exact ⟨s ++ skipped, part, after, by simp only [List.append_assoc], some_,
        by simp only [List.append_assoc]⟩

/-- The start of a stretch is no earlier than the text. -/
theorem start_le (h : InOrder before text spans) {span : Span} (member : span ∈ spans) :
    (behind before).offset ≤ span.start := by
  obtain ⟨skipped, _, _, _, _, rfl⟩ := h.located member
  exact Position.offset_behind_le before skipped

theorem pairwise (h : InOrder before text spans) : spans.Pairwise Span.Before := by
  induction h with
  | done => exact .nil
  | skip _ ih => exact ih
  | @part before s t spans some_ rest ih =>
    refine List.pairwise_cons.2 ⟨fun span member => ?_, ih⟩
    have apart := rest.start_le member
    obtain ⟨skipped, part, after, rfl, -, rfl⟩ := rest.located member
    have first : (behind before).Before (behind (before ++ s ++ skipped)) := by
      rw [List.append_assoc]
      exact Position.before_behind before (by simp [some_])
    exact ⟨first.offset, apart, first.place⟩

/-- A stretch between two points of a source. -/
theorem holds_between (before text after : List Char) :
    (Span.between (behind before) (behind (before ++ text))).Holds
      (String.ofList (before ++ text ++ after)) (String.ofList text) := by
  refine ⟨String.ofList before, String.ofList after, ?_, ?_⟩
  · rw [String.ofList_append, String.ofList_append]
  · rw [← String.ofList_append, String.toList_ofList]
    simp only [Span.between, Position.behind_eq, true_and]
    exact ⟨rfl, rfl⟩

theorem holds (h : InOrder before text spans) {span : Span} (member : span ∈ spans) :
    ∃ part, part ≠ "" ∧ span.Holds (String.ofList (before ++ text)) part := by
  obtain ⟨skipped, part, after, rfl, some_, rfl⟩ := h.located member
  refine ⟨String.ofList part, fun empty => some_ ?_, ?_⟩
  · rw [← String.toList_ofList (l := part), empty]
    rfl
  · have held := holds_between (before ++ skipped) part after
    simp only [List.append_assoc] at held ⊢
    exact held

end InOrder

/-! ### Scanning step by step -/

theorem take_takeWhile (p : Char → Bool) (s : List Char) :
    s.take (s.takeWhile p).length = s.takeWhile p :=
  (List.prefix_iff_eq_take.1 (List.takeWhile_prefix p)).symm

section Steps

variable (p : Position) {c : Char} {cs : List Char} {n : Nat}

theorem scanFrom_nil : scanFrom p [] = ([], [], p) := by rw [scanFrom]

theorem scanFrom_blank (h : pieceAt c cs = (n, .blank)) :
    scanFrom p (c :: cs) = scanFrom (p.advance (c :: cs.take n)) (cs.drop n) := by
  rw [scanFrom, h]

theorem scanFrom_token {t : Token} {tokens : List Lexeme} {behind : List LexError × Position}
    (h : pieceAt c cs = (n, .token t))
    (rest : scanFrom (p.advance (c :: cs.take n)) (cs.drop n) = (tokens, behind)) :
    scanFrom p (c :: cs)
      = (⟨t, .between p (p.advance (c :: cs.take n))⟩ :: tokens, behind) := by
  rw [scanFrom, h]
  dsimp only
  rw [rest]

theorem scanFrom_bad {cause : LexCause} (h : pieceAt c cs = (n, .bad cause)) :
    scanFrom p (c :: cs) =
      let next := p.advance (c :: cs.take n)
      let rest := scanFrom next (cs.drop n)
      (rest.1, ⟨cause, .between p next⟩ :: rest.2.1, rest.2.2) := by
  rw [scanFrom, h]

/-- White space may be passed over one character at a time. -/
theorem scanFrom_layout (layout : isLayout c = true) :
    scanFrom p (c :: cs) = scanFrom (p.step c) cs := by
  have skip : ∀ p {c cs}, isLayout c = true → scanFrom p (c :: cs)
      = scanFrom ((p.step c).advance (cs.takeWhile isLayout)) (cs.dropWhile isLayout) := by
    intro p c cs layout
    have piece : pieceAt c cs = ((cs.takeWhile isLayout).length, .blank) := if_pos layout
    rw [scanFrom_blank p piece, take_takeWhile, drop_takeWhile]
    rfl
  rw [skip p layout]
  cases cs with
  | nil => rfl
  | cons d cs =>
    by_cases more : isLayout d = true
    · rw [List.takeWhile_cons_of_pos more, List.dropWhile_cons_of_pos more, skip _ more]
      rfl
    · rw [List.takeWhile_cons_of_neg more, List.dropWhile_cons_of_neg more]
      rfl

theorem scanFrom_line :
    scanFrom p ('/' :: '/' :: cs) = scanFrom (p.advance ('/' :: '/' :: cs.takeWhile (· ≠ '\n')))
      (cs.dropWhile (· ≠ '\n')) := by
  have piece : pieceAt '/' ('/' :: cs) = ((cs.takeWhile (· ≠ '\n')).length + 1, .blank) := by
    simp [pieceAt, isLayout]
  rw [scanFrom_blank p piece, List.take_succ_cons, List.drop_succ_cons, take_takeWhile,
    drop_takeWhile]

theorem scanFrom_block (closed : commentLength? cs = some n) :
    scanFrom p ('/' :: '*' :: cs)
      = scanFrom (p.advance ('/' :: '*' :: cs.take n)) (cs.drop n) := by
  have piece : pieceAt '/' ('*' :: cs) = (n + 1, .blank) := by
    simp [pieceAt, isLayout, closed]
  rw [scanFrom_blank p piece, List.take_succ_cons, List.drop_succ_cons]

end Steps

/-- A block comment ends with the first `*/`. -/
theorem commentLength?_spec {cs : List Char} {n : Nat} (h : commentLength? cs = some n) :
    ∃ body, cs.take n = body ++ ['*', '/'] ∧ ¬ ['*', '/'] <:+: body ++ ['*'] := by
  fun_induction commentLength? cs generalizing n with
  | case1 rest =>
    obtain rfl := Option.some.inj h
    refine ⟨[], rfl, fun inside => ?_⟩
    simpa using inside.length_le
  | case2 c cs notClosed ih =>
    obtain ⟨m, found, rfl⟩ := Option.map_eq_some_iff.1 h
    obtain ⟨body, taken, unclosed⟩ := ih found
    refine ⟨c :: body, by rw [List.take_succ_cons, taken]; rfl, fun inside => ?_⟩
    rcases List.infix_cons_iff.1 inside with start | inside
    · obtain ⟨star, start⟩ := List.cons_prefix_cons.1 start
      cases body with
      | nil => simp at start
      | cons d body =>
        obtain ⟨slash, -⟩ := List.cons_prefix_cons.1 start
        have split := List.take_append_drop m cs
        rw [taken, ← slash] at split
        exact notClosed _ star.symm split.symm
    · exact unclosed inside
  | case3 => cases h

/-! ### Sources with tokens -/

/-- The text behind `before` is cut into the tokens, with blanks between them. -/
inductive Cut : List Char → List Char → List Lexeme → Prop
  | done {before gap : List Char} : Blank [] gap → Cut before gap []
  | token {before gap word rest : List Char} {t : Token} {ts : List Lexeme} :
      Blank (word ++ rest) gap → word ≠ [] → Cut (before ++ (gap ++ word)) rest ts →
      Cut before (gap ++ (word ++ rest))
        (⟨t, .between (behind (before ++ gap)) (behind (before ++ (gap ++ word)))⟩ :: ts)

theorem Cut.blank {before gap text : List Char} {ts : List Lexeme} (blank : Blank text gap)
    (cut : Cut (before ++ gap) text ts) : Cut before (gap ++ text) ts := by
  cases cut with
  | done more => exact .done (.append (by rwa [List.append_nil]) more)
  | @token _ more word rest t ts blank' some_ cut =>
    have joined : Cut before _ (⟨t, _⟩ :: ts) := .token (blank.append blank') some_
      (by simpa only [List.append_assoc] using cut)
    simpa only [List.append_assoc] using joined

theorem Cut.inOrder {before text : List Char} {ts : List Lexeme} (cut : Cut before text ts) :
    InOrder before text (ts.map (·.span)) := by
  induction cut with
  | done => exact .done
  | @token before gap word rest t ts _ some_ _ ih =>
    rw [← List.append_assoc] at ih
    have parts := InOrder.skip (.part some_ ih)
    rwa [List.append_assoc before gap word] at parts

theorem Scans.cut {cs : List Char} {ts : List Token} (h : Scans cs ts) (before : List Char) :
    ∃ tokens, scanFrom (behind before) cs = (tokens, [], behind (before ++ cs)) ∧
      Cut before cs tokens := by
  -- what is passed over belongs to the gap in front of the next token
  have pass : ∀ {before gap cs : List Char}, Blank cs gap →
      scanFrom (behind before) (gap ++ cs) = scanFrom (behind (before ++ gap)) cs →
      (∃ tokens, scanFrom (behind (before ++ gap)) cs
        = (tokens, [], behind (before ++ gap ++ cs)) ∧ Cut (before ++ gap) cs tokens) →
      ∃ tokens, scanFrom (behind before) (gap ++ cs)
        = (tokens, [], behind (before ++ (gap ++ cs))) ∧ Cut before (gap ++ cs) tokens := by
    rintro before gap cs blank passed ⟨tokens, scanned, cut⟩
    exact ⟨tokens, by rw [passed, scanned, List.append_assoc], cut.blank blank⟩
  induction h generalizing before with
  | nil => exact ⟨[], by rw [scanFrom_nil, List.append_nil], .done .nil⟩
  | @layout c cs ts layout _ ih =>
    have blank : Blank cs [c] := .layout layout .nil
    refine pass blank ?_ (ih _)
    rw [List.singleton_append, scanFrom_layout _ layout, Position.behind_append]
    rfl
  | @line cs ts _ ih =>
    have split : '/' :: '/' :: cs
        = ('/' :: '/' :: cs.takeWhile (· ≠ '\n')) ++ cs.dropWhile (· ≠ '\n') := by
      simp
    rw [split]
    refine pass ?_ ?_ (ih _)
    · have line : Blank (cs.dropWhile (· ≠ '\n'))
          ('/' :: '/' :: (cs.takeWhile (· ≠ '\n') ++ [])) := by
        refine .line (fun feed => ?_) (fun c first => ?_) .nil
        · simpa using List.mem_takeWhile_imp feed
        · have stops := List.head?_dropWhile_not (· ≠ '\n') cs
          rw [List.nil_append, Option.mem_def] at first
          rw [first] at stops
          simpa using stops
      rwa [List.append_nil] at line
    · rw [← split, scanFrom_line, Position.behind_append]
  | @block cs n ts closed _ ih =>
    obtain ⟨body, taken, unclosed⟩ := commentLength?_spec closed
    have split : '/' :: '*' :: cs = ('/' :: '*' :: cs.take n) ++ cs.drop n := by simp
    rw [split]
    refine pass (taken ▸ .block unclosed .nil) ?_ (ih _)
    rw [← split, scanFrom_block _ closed, Position.behind_append]
  | @token c cs n t ts piece _ ih =>
    obtain ⟨tokens, scanned, cut⟩ := ih (before ++ (c :: cs.take n))
    have split : c :: cs = (c :: cs.take n) ++ cs.drop n := by simp
    refine ⟨⟨t, .between (behind before) (behind (before ++ (c :: cs.take n)))⟩ :: tokens, ?_, ?_⟩
    · rw [Position.behind_append] at scanned
      rw [scanFrom_token _ piece scanned, ← Position.behind_append, List.append_assoc, ← split]
    · have first : Cut before ([] ++ ((c :: cs.take n) ++ cs.drop n)) (⟨t, _⟩ :: tokens) :=
        .token .nil (List.cons_ne_nil c (cs.take n)) (by rwa [List.nil_append])
      simpa using first

theorem Cut.gaps {before text : List Char} {ts : List Lexeme} (cut : Cut before text ts) :
    ∀ gap ∈ ((behind before).offset :: ts.map (·.span.stop)).zip
        (ts.map (·.span.start) ++ [(behind (before ++ text)).offset]),
      ∃ s blank after, before ++ text = s ++ blank ++ after ∧ gap.1 = (behind s).offset ∧
        gap.2 = (behind (s ++ blank)).offset ∧ Blank after blank := by
  induction cut with
  | @done before blank h =>
    intro gap member
    obtain rfl := List.mem_singleton.1 member
    exact ⟨before, blank, [], by rw [List.append_nil], rfl, rfl, h⟩
  | @token before blank word rest t ts h _ _ ih =>
    intro gap member
    rcases List.mem_cons.1 member with rfl | member
    · exact ⟨before, blank, word ++ rest, by rw [List.append_assoc], rfl, rfl, h⟩
    · simp only [List.append_assoc] at ih member ⊢
      exact ih gap member

/-! ### Sources with errors -/

theorem inOrder_errors (before cs : List Char) :
    InOrder before cs ((scanFrom (behind before) cs).2.1.map (·.span)) := by
  match cs with
  | [] =>
    rw [scanFrom_nil]
    exact .done
  | c :: cs =>
    cases piece : pieceAt c cs with
    | mk n what =>
      have split : c :: cs = (c :: cs.take n) ++ cs.drop n := by simp
      have next : (behind before).advance (c :: cs.take n) = behind (before ++ (c :: cs.take n)) :=
        (Position.behind_append ..).symm
      have rest := inOrder_errors (before ++ (c :: cs.take n)) (cs.drop n)
      cases what with
      | blank =>
        rw [scanFrom_blank _ piece, next, split]
        exact .skip rest
      | token t =>
        rw [scanFrom_token _ piece rfl, next, split]
        exact .skip rest
      | bad cause =>
        rw [scanFrom_bad _ piece, next, split]
        exact .part (by simp) rest
termination_by cs.length
decreasing_by simp only [List.length_drop, List.length_cons]; omega

end Source

/-! ### Tiling -/

namespace Lexed

/-- The stretches of the tokens and of the end. -/
def spans (l : Lexed) : List Span := l.tokens.map (·.span) ++ [l.finish]

/-- Where one token stops and the next one, or the end, starts. -/
def gaps (l : Lexed) : List (Nat × Nat) :=
  (0 :: l.tokens.map (·.span.stop)).zip (l.spans.map (·.start))

/-- The tokens stand in the source one behind the other, each with a text of its own, and what is in
front of, between and behind them is blank. -/
structure Tiles (l : Lexed) (source : String) : Prop where
  tokens : ∀ t ∈ l.tokens, ∃ text, text ≠ "" ∧ t.span.Holds source text
  finish : l.finish.Holds source "" ∧ l.finish.stop = source.utf8ByteSize
  apart : l.spans.Pairwise Span.Before
  gaps : ∀ gap ∈ l.gaps, ∃ before blank after : String, source = before ++ blank ++ after ∧
    gap.1 = before.utf8ByteSize ∧ gap.2 = (before ++ blank).utf8ByteSize ∧
    Source.Blank after.toList blank.toList

end Lexed

namespace Source

open Position (behind)

theorem Cut.tiles {text : List Char} {ts : List Lexeme} (cut : Cut [] text ts) :
    (Lexed.mk ts (.between (behind text) (behind text))).Tiles (String.ofList text) where
  tokens t member := cut.inOrder.holds (List.mem_map_of_mem member)
  finish := by
    have held := InOrder.holds_between text [] []
    simp only [List.append_nil] at held
    exact ⟨held, by simp only [Span.between, Position.behind_eq]⟩
  apart := by
    refine List.pairwise_append.2 ⟨cut.inOrder.pairwise, List.pairwise_singleton .., ?_⟩
    intro s member t last
    obtain rfl := List.mem_singleton.1 last
    obtain ⟨skipped, part, after, split, some_, rfl⟩ := cut.inOrder.located member
    rw [List.nil_append]
    have start : (behind skipped).Before (behind text) := by
      rw [split, List.append_assoc]
      exact Position.before_behind skipped (by simp [some_])
    have stop := Position.offset_behind_le (skipped ++ part) after
    rw [← split] at stop
    exact ⟨start.offset, stop, start.place⟩
  gaps gap member := by
    have cuts := cut.gaps gap
    simp only [Lexed.gaps, Lexed.spans, List.map_append, List.map_map] at member
    obtain ⟨s, blank, after, split, first, second, h⟩ := cuts member
    refine ⟨String.ofList s, String.ofList blank, String.ofList after, ?_, ?_, ?_, ?_⟩
    · rw [← String.ofList_append, ← String.ofList_append, ← split, List.nil_append]
    · rw [first, Position.behind_eq]
    · rw [second, Position.behind_eq, String.ofList_append]
    · rwa [String.toList_ofList, String.toList_ofList]

theorem tiles_of_scan {source : String} {lexed : Lexed} (scanned : scan source = .ok lexed) :
    lexed.Tiles source := by
  have whole : String.ofList source.toList = source := String.ofList_toList
  have scans := scans_of_words? (words?_eq_some_iff.2 ⟨lexed, scanned, rfl⟩)
  obtain ⟨tokens, found, cut⟩ := scans.cut []
  change scanFrom {} source.toList = _ at found
  rw [scan_eq, found] at scanned
  cases scanned
  rw [List.nil_append]
  have tiles := cut.tiles
  rwa [whole] at tiles

/-- The tokens of a source tile it; so do its errors, as far as they go, if there are any. -/
theorem scan_tiles (source : String) :
    match scan source with
    | .ok lexed => lexed.Tiles source
    | .error errors => (errors.map (·.span)).Pairwise Span.Before ∧
        ∀ e ∈ errors, ∃ text, text ≠ "" ∧ e.span.Holds source text := by
  cases scanned : scan source with
  | ok lexed => exact tiles_of_scan scanned
  | error errors =>
    have found : errors = (scanFrom {} source.toList).2.1 := by
      rw [scan_eq] at scanned
      split at scanned
      · cases scanned
      · rename_i scanned'
        cases scanned
        rw [scanned']
    have inOrder : InOrder [] source.toList (errors.map (·.span)) :=
      found ▸ inOrder_errors [] source.toList
    refine ⟨inOrder.pairwise, fun e member => ?_⟩
    have held := inOrder.holds (List.mem_map_of_mem (f := (·.span)) member)
    have whole : String.ofList source.toList = source := String.ofList_toList
    rwa [List.nil_append, whole] at held

end Source

end Classwright
