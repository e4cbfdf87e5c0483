import Classwright.Proofs.Tiling

/-!
# Scanning line by line

No token, no number and no comment that is complete in front of a line feed goes on behind it. So
the tokens of two texts with a line feed between them are those of the first and those of the
second, which stand as far behind as the first text and the line feed are long.
-/

namespace Classwright

/-! ### Moving places -/

def Position.shift (bytes lines : Nat) (p : Position) : Position :=
  ⟨p.offset + bytes, p.line + lines, p.column⟩

def Span.shift (bytes lines : Nat) (s : Span) : Span :=
  ⟨s.start + bytes, s.stop + bytes, s.line + lines, s.column⟩

def Lexeme.shift (bytes lines : Nat) (t : Lexeme) : Lexeme := ⟨t.token, t.span.shift bytes lines⟩

/-- The tokens of a text with a line feed behind it and then those of a second text. -/
def Lexed.joinLine (l : Lexed) (source : String) (l' : Lexed) : Lexed :=
  let bytes := source.utf8ByteSize + 1
  let lines := source.toList.count '\n' + 1
  ⟨l.tokens ++ l'.tokens.map (·.shift bytes lines), l'.finish.shift bytes lines⟩

namespace Position

variable (bytes lines : Nat) (p : Position)

theorem shift_step (c : Char) : (p.shift bytes lines).step c = (p.step c).shift bytes lines := by
  unfold step
  split
  · exact Position.mk.injEq .. ▸ ⟨Nat.add_right_comm .., Nat.add_right_comm .., rfl⟩
  · exact Position.mk.injEq .. ▸ ⟨Nat.add_right_comm .., rfl, rfl⟩

theorem shift_advance (s : List Char) :
    (p.shift bytes lines).advance s = (p.advance s).shift bytes lines := by
  induction s generalizing p with
  | nil => rfl
  | cons c s ih =>
    calc (p.shift bytes lines).advance (c :: s)
        = ((p.shift bytes lines).step c).advance s := rfl
      _ = ((p.step c).shift bytes lines).advance s := by rw [shift_step]
      _ = ((p.step c).advance s).shift bytes lines := ih _

/-- The point behind a text and a line feed. -/
theorem step_behind (text : String) : (behind text.toList).step '\n'
    = shift (text.utf8ByteSize + 1) (text.toList.count '\n' + 1) {} := by
  have feed : '\n'.utf8Size = 1 := rfl
  rw [behind_eq, String.ofList_toList]
  simp [step, shift, feed, Nat.add_comm]

end Position

namespace Source

/-! ### Texts with a line feed behind them -/

theorem takeWhile_line (cs rest : List Char) :
    (cs ++ '\n' :: rest).takeWhile (· ≠ '\n') = cs.takeWhile (· ≠ '\n') ∧
      (cs ++ '\n' :: rest).dropWhile (· ≠ '\n') = cs.dropWhile (· ≠ '\n') ++ '\n' :: rest := by
  induction cs with
  | nil => simp
  | cons c cs ih =>
    by_cases feed : c = '\n'
    · simp [feed]
    · rw [List.cons_append, List.takeWhile_cons_of_pos (by simpa using feed),
        List.takeWhile_cons_of_pos (by simpa using feed),
        List.dropWhile_cons_of_pos (by simpa using feed),
        List.dropWhile_cons_of_pos (by simpa using feed), ih.1, ih.2]
      exact ⟨rfl, rfl⟩

/-- A block comment that is closed ends in the same place whatever follows it. -/
theorem commentLength?_append {cs : List Char} {n : Nat} (closed : commentLength? cs = some n)
    (rest : List Char) : n ≤ cs.length ∧ commentLength? (cs ++ rest) = some n := by
  fun_induction commentLength? cs generalizing n with
  | case1 cs =>
    obtain rfl := Option.some.inj closed
    exact ⟨by simp, rfl⟩
  | case2 c cs notClosed ih =>
    obtain ⟨m, found, rfl⟩ := Option.map_eq_some_iff.1 closed
    obtain ⟨inside, same⟩ := ih found
    refine ⟨by simpa using inside, ?_⟩
    rw [List.cons_append, commentLength?, same, Option.map_some]
    intro cs' star slash
    cases cs with
    | nil => cases found
    | cons d cs => exact notClosed cs star (congrArg (· :: cs) (List.cons.inj slash).1)
  | case3 => cases closed

theorem pieceAt_line {c : Char} {cs : List Char} {n : Nat} {t : Token}
    (piece : pieceAt c cs = (n, .token t)) (rest : List Char) :
    n ≤ cs.length ∧ pieceAt c (cs ++ '\n' :: rest) = (n, .token t) := by
  obtain ⟨inside, -, -, stable⟩ := pieceAt_token piece
  have feed : Gap ('\n' :: rest) := gap_cons.2 rfl
  have alike := (Similar.gap gap_nil feed).append (cs.drop n)
  rw [List.append_nil] at alike
  have same := stable _ alike
  rw [← List.append_assoc, List.take_append_drop] at same
  exact ⟨inside, same⟩

/-! ### Scanning on behind the line feed -/

/-- What `scanFrom` gives for two texts, one behind the other, of which the first is read whole. -/
theorem Scans.through {cs : List Char} {ts : List Token} (h : Scans cs ts) (p : Position)
    (rest : List Char) : ∃ tokens, scanFrom p cs = (tokens, [], p.advance cs) ∧
      scanFrom p (cs ++ '\n' :: rest) =
        let behind := scanFrom ((p.advance cs).step '\n') rest
        (tokens ++ behind.1, behind.2) := by
  induction h generalizing p with
  | nil => exact ⟨[], scanFrom_nil p, scanFrom_layout p rfl⟩
  | @layout c cs ts layout _ ih =>
    obtain ⟨tokens, alone, joined⟩ := ih (p.step c)
    refine ⟨tokens, ?_, ?_⟩
    · rw [scanFrom_layout p layout, alone]
      rfl
    · rw [List.cons_append, scanFrom_layout p layout, joined]
      rfl
  | @line cs ts _ ih =>
    obtain ⟨tokens, alone, joined⟩ := ih (p.advance ('/' :: '/' :: cs.takeWhile (· ≠ '\n')))
    rw [← Position.advance_append, List.cons_append, List.cons_append,
      List.takeWhile_append_dropWhile] at alone joined
    obtain ⟨taken, left⟩ := takeWhile_line cs rest
    refine ⟨tokens, ?_, ?_⟩
    · rw [scanFrom_line, alone]
    · rw [List.cons_append, List.cons_append, scanFrom_line, taken, left, joined]
  | @block cs n ts closed _ ih =>
    obtain ⟨tokens, alone, joined⟩ := ih (p.advance ('/' :: '*' :: cs.take n))
    rw [← Position.advance_append, List.cons_append, List.cons_append,
      List.take_append_drop] at alone joined
    obtain ⟨inside, closed'⟩ := commentLength?_append closed ('\n' :: rest)
    refine ⟨tokens, ?_, ?_⟩
    · rw [scanFrom_block p closed, alone]
    · rw [List.cons_append, List.cons_append, scanFrom_block p closed',
        List.take_append_of_le_length inside, List.drop_append_of_le_length inside, joined]
  | @token c cs n t ts piece _ ih =>
    obtain ⟨tokens, alone, joined⟩ := ih (p.advance (c :: cs.take n))
    rw [← Position.advance_append, List.cons_append, List.take_append_drop] at alone joined
    obtain ⟨inside, piece'⟩ := pieceAt_line piece rest
    rw [← List.drop_append_of_le_length inside] at joined
    have part : (cs ++ '\n' :: rest).take n = cs.take n :=
      List.take_append_of_le_length inside
    nth_rewrite 1 [← part] at joined
    refine ⟨⟨t, .between p (p.advance (c :: cs.take n))⟩ :: tokens,
      scanFrom_token p piece alone, ?_⟩
    rw [List.cons_append, scanFrom_token p piece' joined, List.take_append_of_le_length inside]
    rfl

/-- Tokens stand as far behind as the text does. -/
theorem Scans.shifted {cs : List Char} {ts : List Token} (h : Scans cs ts) (bytes lines : Nat)
    (p : Position) : ∃ tokens, scanFrom p cs = (tokens, [], p.advance cs) ∧
      scanFrom (p.shift bytes lines) cs
        = (tokens.map (·.shift bytes lines), [], (p.advance cs).shift bytes lines) := by
  induction h generalizing p with
  | nil => exact ⟨[], scanFrom_nil p, scanFrom_nil _⟩
  | @layout c cs ts layout _ ih =>
    rw [scanFrom_layout p layout, scanFrom_layout _ layout, Position.shift_step]
    exact ih (p.step c)
  | @line cs ts _ ih =>
    have given := ih (p.advance ('/' :: '/' :: cs.takeWhile (· ≠ '\n')))
    rwa [← Position.shift_advance, ← scanFrom_line, ← scanFrom_line, ← Position.advance_append,
      List.cons_append, List.cons_append, List.takeWhile_append_dropWhile] at given
  | @block cs n ts closed _ ih =>
    have given := ih (p.advance ('/' :: '*' :: cs.take n))
    rwa [← Position.shift_advance, ← scanFrom_block _ closed, ← scanFrom_block _ closed,
      ← Position.advance_append, List.cons_append, List.cons_append,
      List.take_append_drop] at given
  | @token c cs n t ts piece _ ih =>
    obtain ⟨tokens, here, there⟩ := ih (p.advance (c :: cs.take n))
    rw [← Position.advance_append, List.cons_append, List.take_append_drop] at here there
    rw [← Position.shift_advance] at there
    refine ⟨⟨t, .between p (p.advance (c :: cs.take n))⟩ :: tokens,
      scanFrom_token p piece here, ?_⟩
    rw [scanFrom_token _ piece there, Position.shift_advance]
    rfl

/-! ### Lines -/

theorem scans_of_scan {source : String} {l : Lexed} (scanned : scan source = .ok l) :
    ∃ ts, Scans source.toList ts :=
  ⟨_, scans_of_words? (words?_eq_some_iff.2 ⟨l, scanned, rfl⟩)⟩

theorem scan_eq_ok {source : String} {tokens : List Lexeme} {last : Position}
    (scanned : scanFrom {} source.toList = (tokens, [], last)) :
    scan source = .ok ⟨tokens, .between last last⟩ := by
  rw [scan_eq, scanned]

/-- Two texts that have tokens have them together, too, with a line feed between the texts. -/
theorem scan_append_line {a b : String} {l l' : Lexed} (first : scan a = .ok l)
    (second : scan b = .ok l') : scan (a ++ "\n" ++ b) = .ok (l.joinLine a l') := by
  obtain ⟨ts, scans⟩ := scans_of_scan first
  obtain ⟨ts', scans'⟩ := scans_of_scan second
  obtain ⟨tokens, alone, joined⟩ := scans.through {} b.toList
  obtain ⟨tokens', here, there⟩ :=
    scans'.shifted (a.utf8ByteSize + 1) (a.toList.count '\n' + 1) {}
  rw [scan_eq_ok alone, Except.ok.injEq] at first
  rw [scan_eq_ok here, Except.ok.injEq] at second
  have step := Position.step_behind a
  rw [Position.behind] at step
  rw [step, there] at joined
  have text : (a ++ "\n" ++ b).toList = a.toList ++ '\n' :: b.toList := by simp
  rw [← text] at joined
  rw [scan_eq_ok joined, ← first, ← second]
  rfl

end Source

namespace Sample

open Source

def halfLine : String := "a += 1.5; // half"

def twoLines : String := "/* two\n lines */ b"

/-- A line comment ends the first text and a block comment of two lines starts the second. -/
theorem halfLine_twoLines : ∃ l l', scan halfLine = .ok l ∧ scan twoLines = .ok l' ∧
    scan (halfLine ++ "\n" ++ twoLines) = .ok (l.joinLine halfLine l') ∧
    (l.joinLine halfLine l').tokens.map (·.span)
      = [⟨0, 1, 1, 1⟩, ⟨2, 4, 1, 3⟩, ⟨5, 8, 1, 6⟩, ⟨8, 9, 1, 9⟩, ⟨35, 36, 3, 11⟩] := by
  have first : (scan halfLine).toOption.map (·.tokens.map (·.span))
      = some [⟨0, 1, 1, 1⟩, ⟨2, 4, 1, 3⟩, ⟨5, 8, 1, 6⟩, ⟨8, 9, 1, 9⟩] := by decide +kernel
  have second : (scan twoLines).toOption.map (·.tokens.map (·.span))
      = some [⟨17, 18, 2, 11⟩] := by decide +kernel
  obtain ⟨l, scanned, spans⟩ := Option.map_eq_some_iff.1 first
  obtain ⟨l', scanned', spans'⟩ := Option.map_eq_some_iff.1 second
  have ok : ∀ {r : Except (List LexError) Lexed} {l}, r.toOption = some l → r = .ok l := by
    rintro (_ | _) l h
    · cases h
    · exact congrArg _ (Option.some.inj h)
  refine ⟨l, l', ok scanned, ok scanned', scan_append_line (ok scanned) (ok scanned'), ?_⟩
  have shifted : l'.tokens.map (fun t => (t.shift 18 1).span)
      = (l'.tokens.map (·.span)).map (·.shift 18 1) := by simp [Lexeme.shift]
  have bytes : halfLine.utf8ByteSize + 1 = 18 := by decide +kernel
  have lines : halfLine.toList.count '\n' + 1 = 1 := by decide +kernel
  rw [Lexed.joinLine, bytes, lines]
  simp only [List.map_append, List.map_map]
  rw [spans]
  exact congrArg _ (shifted.trans (congrArg _ spans'))

end Sample

end Classwright
