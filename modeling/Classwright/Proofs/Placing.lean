import Classwright.Source.Lexeme
import Mathlib.Data.List.Basic
import Mathlib.Data.List.Induction
import Mathlib.Data.List.TakeWhile

/-!
# Places of a source, kept or looked up

A scan looks the line of each stretch up among the offsets at which lines start, and counts the
characters in front of it on that line. A `Position` that moves on with every character counts lines
and columns as it goes. Both give the same places, so a scan may be followed character by character:
`Source.scan_eq`.
-/

namespace Classwright

/-! ### Positions -/

/-- A point in a source. -/
structure Position where
  offset : Nat := 0
  line : Nat := 1
  column : Nat := 1
deriving DecidableEq, Repr

namespace Position

def step (p : Position) (c : Char) : Position :=
  if c = '\n' then ⟨p.offset + c.utf8Size, p.line + 1, 1⟩
  else ⟨p.offset + c.utf8Size, p.line, p.column + 1⟩

/-- The point after the given characters. -/
def advance (p : Position) (cs : List Char) : Position := cs.foldl step p

theorem advance_append (p : Position) (s t : List Char) :
    p.advance (s ++ t) = (p.advance s).advance t := List.foldl_append

/-- The point behind a text that a source starts with. -/
def behind (text : List Char) : Position := ({} : Position).advance text

theorem behind_append (s t : List Char) : behind (s ++ t) = (behind s).advance t :=
  advance_append _ s t

/-- Number of characters behind the last line feed. -/
def columnsOf (text : List Char) : Nat := (text.reverse.takeWhile (· ≠ '\n')).length

theorem columnsOf_concat (s : List Char) (c : Char) :
    columnsOf (s ++ [c]) = if c = '\n' then 0 else columnsOf s + 1 := by
  rw [columnsOf, List.reverse_append]
  by_cases feed : c = '\n'
  · simp [feed]
  · simp [feed, columnsOf]

theorem utf8ByteSize_concat (s : List Char) (c : Char) :
    (String.ofList (s ++ [c])).utf8ByteSize = (String.ofList s).utf8ByteSize + c.utf8Size := by
  rw [String.ofList_append, String.utf8ByteSize_append]
  exact congrArg _ String.utf8ByteSize_singleton

/-- Offsets count bytes, lines and columns count line feeds and characters. -/
theorem behind_eq (text : List Char) :
    behind text = ⟨(String.ofList text).utf8ByteSize, 1 + text.count '\n', 1 + columnsOf text⟩ := by
  induction text using List.reverseRecOn with
  | nil => rfl
  | append_singleton s c ih =>
    have last : behind (s ++ [c]) = (behind s).step c := behind_append s [c]
    rw [last, ih, utf8ByteSize_concat, columnsOf_concat, List.count_append, step]
    by_cases feed : c = '\n'
    · simp [feed, Nat.add_assoc]
    · simp [feed, Nat.add_assoc, Nat.add_comm 1]

end Position

def Span.between (p q : Position) : Span := ⟨p.offset, q.offset, p.line, p.column⟩

/-! ### Bytes and characters -/

namespace Text

theorem utf8EncodeChar_ofNat {b : UInt8} (narrow : b < 128) :
    String.utf8EncodeChar (Char.ofNat b.toNat) = [b] := by
  have small : b.toNat < 128 := UInt8.lt_iff_toNat_lt.1 narrow
  have code : (Char.ofNat b.toNat).val.toNat = b.toNat := by
    have valid : b.toNat.isValidChar := .inl (by omega)
    rw [Char.ofNat, dif_pos valid]
    rfl
  unfold String.utf8EncodeChar
  dsimp only
  rw [code, if_pos (by omega), UInt8.ofNat_toNat]

/-- Reading byte by byte makes no difference. -/
theorem chars_eq (s : String) : chars s = s.toList := by
  unfold chars
  dsimp only
  split
  · rename_i narrow
    have narrow : ∀ b ∈ s.toByteArray.data.toList, b < 128 := fun b member =>
      of_decide_eq_true (List.all_eq_true.1 narrow b member)
    have bytes : (s.toByteArray.data.toList.map fun b => Char.ofNat b.toNat).flatMap
        String.utf8EncodeChar = s.toByteArray.data.toList :=
      calc (s.toByteArray.data.toList.map fun b => Char.ofNat b.toNat).flatMap
            String.utf8EncodeChar
        _ = s.toByteArray.data.toList.flatMap
            fun b => String.utf8EncodeChar (Char.ofNat b.toNat) := List.flatMap_map ..
        _ = s.toByteArray.data.toList.flatMap fun b => [b] :=
          List.flatMap_congr fun b member => utf8EncodeChar_ofNat (narrow b member)
        _ = s.toByteArray.data.toList := List.flatMap_singleton' _
    have same : String.ofList (s.toByteArray.data.toList.map fun b => Char.ofNat b.toNat) = s := by
      apply String.toByteArray_inj.1
      rw [String.toByteArray_ofList, List.utf8Encode, bytes]
      apply ByteArray.ext
      rw [List.data_toByteArray]
    exact String.toList_ofList.symm.trans (congrArg String.toList same)
  · rfl

@[simp] theorem byteSize_nil : byteSize [] = 0 := rfl

@[simp] theorem byteSize_cons (c : Char) (cs : List Char) :
    byteSize (c :: cs) = c.utf8Size + byteSize cs := rfl

@[simp] theorem byteSize_append (s t : List Char) :
    byteSize (s ++ t) = byteSize s + byteSize t := by
  induction s with
  | nil => simp
  | cons c s ih => simp [ih, Nat.add_assoc]

theorem takeBytes_append (s t : List Char) : takeBytes (byteSize s) (s ++ t) = s := by
  induction s with
  | nil => rw [byteSize_nil, takeBytes]
  | cons c s ih =>
    have some_ : byteSize (c :: s) ≠ 0 := by
      have := c.utf8Size_pos
      rw [byteSize_cons]
      omega
    obtain ⟨n, same⟩ := Nat.exists_eq_succ_of_ne_zero some_
    rw [same, List.cons_append, takeBytes, ← Nat.succ_eq_add_one, ← same, byteSize_cons,
      Nat.add_sub_cancel_left, ih]

theorem dropBytes_append (s t : List Char) : dropBytes (byteSize s) (s ++ t) = t := by
  induction s with
  | nil => rw [byteSize_nil, dropBytes, List.nil_append]
  | cons c s ih =>
    have some_ : byteSize (c :: s) ≠ 0 := by
      have := c.utf8Size_pos
      rw [byteSize_cons]
      omega
    obtain ⟨n, same⟩ := Nat.exists_eq_succ_of_ne_zero some_
    rw [same, List.cons_append, dropBytes, ← Nat.succ_eq_add_one, ← same, byteSize_cons,
      Nat.add_sub_cancel_left, ih]

end Text

theorem Position.offset_advance (p : Position) (s : List Char) :
    (p.advance s).offset = p.offset + Text.byteSize s := by
  induction s generalizing p with
  | nil => rfl
  | cons c s ih =>
    have moved : (p.step c).offset = p.offset + c.utf8Size := by
      unfold step
      split <;> rfl
    calc (p.advance (c :: s)).offset
      _ = ((p.step c).advance s).offset := rfl
      _ = p.offset + (c.utf8Size + Text.byteSize s) := by rw [ih, moved, Nat.add_assoc]

theorem Position.offset_behind (s : List Char) : (behind s).offset = Text.byteSize s := by
  rw [behind, offset_advance, Nat.zero_add]

/-! ### Starts of lines -/

namespace LineIndex

open Text

theorem startsFrom_append (offset : Nat) (s t : List Char) :
    startsFrom offset (s ++ t) = startsFrom offset s ++ startsFrom (offset + byteSize s) t := by
  induction s generalizing offset with
  | nil => rfl
  | cons c s ih =>
    rw [List.cons_append, startsFrom, startsFrom, ih, byteSize_cons, ← Nat.add_assoc]
    split
    · rfl
    · rfl

theorem length_startsFrom (offset : Nat) (s : List Char) :
    (startsFrom offset s).length = s.count '\n' := by
  induction s generalizing offset with
  | nil => rfl
  | cons c s ih =>
    rw [startsFrom, List.count_cons]
    by_cases feed : c = '\n'
    · simp [feed, ih]
    · simp [feed, ih]

theorem of_mem_startsFrom {offset start : Nat} {s : List Char}
    (member : start ∈ startsFrom offset s) : offset < start ∧ start ≤ offset + byteSize s := by
  induction s generalizing offset with
  | nil => cases member
  | cons c s ih =>
    have size := c.utf8Size_pos
    rw [startsFrom] at member
    rw [byteSize_cons]
    have rest : start ∈ startsFrom (offset + c.utf8Size) s →
        offset < start ∧ start ≤ offset + (c.utf8Size + byteSize s) := by
      intro member
      have := ih member
      omega
    split at member
    · rcases List.mem_cons.1 member with rfl | member
      · omega
      · exact rest member
    · exact rest member

theorem sorted_startsFrom (offset : Nat) (s : List Char) :
    (startsFrom offset s).Pairwise (· < ·) := by
  induction s generalizing offset with
  | nil => exact .nil
  | cons c s ih =>
    rw [startsFrom]
    split
    · exact List.pairwise_cons.2 ⟨fun _ member => (of_mem_startsFrom member).1, ih _⟩
    · exact ih _

theorem sorted_starts (s : List Char) : (0 :: startsFrom 0 s).Pairwise (· < ·) :=
  List.pairwise_cons.2 ⟨fun _ member => (of_mem_startsFrom member).1, sorted_startsFrom 0 s⟩

/-- A text is its lines with their line feeds, and what stands on the last one. -/
theorem exists_lastLine (s : List Char) : ∃ front line : List Char, s = front ++ line ∧
    '\n' ∉ line ∧ line.length = Position.columnsOf s ∧
    (0 :: startsFrom 0 s).getLast? = some (byteSize front) := by
  induction s using List.reverseRecOn with
  | nil => exact ⟨[], [], rfl, by simp, rfl, rfl⟩
  | append_singleton s c ih =>
    rw [startsFrom_append, Position.columnsOf_concat, Nat.zero_add]
    by_cases feed : c = '\n'
    · subst feed
      refine ⟨s ++ ['\n'], [], by simp, by simp, by simp, ?_⟩
      rw [byteSize_append, ← List.cons_append]
      exact List.getLast?_concat
    · obtain ⟨front, line, rfl, noFeed, columns, last⟩ := ih
      refine ⟨front, line ++ [c], by simp, ?_, ?_, ?_⟩
      · rw [List.mem_append, List.mem_singleton]
        rintro (inside | rfl)
        · exact noFeed inside
        · exact feed rfl
      · rw [if_neg feed, ← columns, List.length_append, List.length_singleton]
      · simpa [startsFrom, feed] using last

/-! ### Looking up an offset -/

/-- The place in front of which all offsets are smaller and from which on all are greater. -/
structure Parts (starts : Array Nat) (offset place : Nat) : Prop where
  inside : place ≤ starts.size
  below : ∀ i (h : i < starts.size), i < place → starts[i] < offset
  above : ∀ i (h : i < starts.size), place ≤ i → offset < starts[i]

theorem ascending {starts : Array Nat} (sorted : starts.toList.Pairwise (· < ·)) {i j : Nat}
    (hi : i < starts.size) (hj : j < starts.size) (h : i < j) : starts[i] < starts[j] := by
  have less := List.pairwise_iff_getElem.1 sorted i j (by simpa using hi) (by simpa using hj) h
  simpa using less

theorem search_spec {starts : Array Nat} (sorted : starts.toList.Pairwise (· < ·)) (offset : Nat)
    {low high : Nat} (ordered : low ≤ high) (inside : high ≤ starts.size)
    (below : ∀ i (h : i < starts.size), i < low → starts[i] < offset)
    (above : ∀ i (h : i < starts.size), high ≤ i → offset < starts[i]) :
    match search starts offset low high with
    | .ok place => ∃ h : place < starts.size, starts[place] = offset
    | .error place => Parts starts offset place := by
  induction low, high using search.induct starts offset with
  | case1 low high some_ middle equal =>
    have bound : middle < starts.size := by omega
    rw [search, if_pos some_]
    have found : starts[middle]?.getD 0 = starts[middle] := by simp [bound]
    change compare (starts[middle]?.getD 0) offset = .eq at equal
    dsimp only
    rw [show low + (high - low) / 2 = middle from rfl, equal]
    exact ⟨bound, by rw [← found]; exact Nat.compare_eq_eq.1 equal⟩
  | case2 low high some_ middle less ih =>
    have bound : middle < starts.size := by omega
    rw [search, if_pos some_]
    have found : starts[middle]?.getD 0 = starts[middle] := by simp [bound]
    change compare (starts[middle]?.getD 0) offset = .lt at less
    dsimp only
    rw [show low + (high - low) / 2 = middle from rfl, less]
    refine ih (by omega) inside (fun i h front => ?_) above
    have here : starts[middle] < offset := by rw [← found]; exact Nat.compare_eq_lt.1 less
    rcases Nat.lt_or_eq_of_le (Nat.le_of_lt_succ front) with front | rfl
    · exact Nat.lt_trans (ascending sorted h bound front) here
    · exact here
  | case3 low high some_ middle greater ih =>
    have bound : middle < starts.size := by omega
    rw [search, if_pos some_]
    have found : starts[middle]?.getD 0 = starts[middle] := by simp [bound]
    change compare (starts[middle]?.getD 0) offset = .gt at greater
    dsimp only
    rw [show low + (high - low) / 2 = middle from rfl, greater]
    refine ih (by omega) (by omega) below fun i h behind => ?_
    have here : offset < starts[middle] := by rw [← found]; exact Nat.compare_eq_gt.1 greater
    rcases Nat.lt_or_eq_of_le behind with behind | rfl
    · exact Nat.lt_trans here (ascending sorted bound h behind)
    · exact here
  | case4 low high none_ =>
    rw [search, if_neg none_]
    obtain rfl : low = high := by omega
    exact ⟨inside, below, above⟩

/-- The line of an offset is the last one that starts no later. -/
theorem lineAt_eq {index : LineIndex} (sorted : index.starts.toList.Pairwise (· < ·))
    {offset place : Nat} (bound : place < index.starts.size)
    (reached : index.starts[place] ≤ offset)
    (behind : ∀ i (h : i < index.starts.size), place < i → offset < index.starts[i]) :
    index.lineAt offset = place := by
  have spec := search_spec sorted offset (Nat.zero_le _) (Nat.le_refl index.starts.size)
    (fun _ _ h => absurd h (Nat.not_lt_zero _)) fun i h out => absurd h (Nat.not_lt.2 out)
  unfold lineAt
  cases found : search index.starts offset 0 index.starts.size with
  | ok exact_ =>
    rw [found] at spec
    obtain ⟨h, same⟩ := spec
    dsimp only
    rcases Nat.lt_trichotomy exact_ place with front | rfl | later
    · have := ascending sorted h bound front
      omega
    · rfl
    · have := behind exact_ h later
      omega
  | error next =>
    rw [found] at spec
    have front : place < next := by
      by_contra out
      have := spec.above place bound (Nat.not_lt.1 out)
      omega
    dsimp only
    by_contra other
    have inside : next - 1 < index.starts.size := by
      have := spec.inside
      omega
    have smaller := spec.below (next - 1) inside (by omega)
    have greater := behind (next - 1) inside (by omega)
    omega

/-- A stretch that is looked up starts where the position behind the text in front of it is. -/
theorem span_eq (before rest : List Char) (stop : Nat) :
    (ofText (before ++ rest)).span (byteSize before) stop
      = ⟨byteSize before, stop, (Position.behind before).line,
        (Position.behind before).column⟩ := by
  obtain ⟨front, line, rfl, noFeed, columns, last⟩ := exists_lastLine before
  let text := front ++ line
  have starts : (0 :: startsFrom 0 (text ++ rest))
      = (0 :: startsFrom 0 text) ++ startsFrom (byteSize text) rest := by
    rw [startsFrom_append, Nat.zero_add, List.cons_append]
  have size : (0 :: startsFrom 0 text).length = text.count '\n' + 1 := by
    rw [List.length_cons, length_startsFrom]
  have there : (0 :: startsFrom 0 (text ++ rest))[text.count '\n']? = some (byteSize front) := by
    rw [starts, List.getElem?_append_left (by omega), ← last, List.getLast?_eq_getElem?, size]
    rfl
  obtain ⟨bound, value⟩ := List.getElem?_eq_some_iff.1 there
  have lineAt : (ofText (text ++ rest)).lineAt (byteSize text) = text.count '\n' := by
    refine lineAt_eq ?_ ?_ ?_ ?_
    · exact sorted_starts _
    · simpa [ofText] using bound
    · simp only [ofText, List.getElem_toArray]
      rw [value, byteSize_append]
      exact Nat.le_add_right _ _
    · intro i h later
      simp only [ofText, List.size_toArray, List.getElem_toArray] at h ⊢
      have inRest : (0 :: startsFrom 0 (text ++ rest))[i] ∈ startsFrom (byteSize text) rest := by
        have split : (0 :: startsFrom 0 (text ++ rest))[i]? =
            (startsFrom (byteSize text) rest)[i - (text.count '\n' + 1)]? := by
          rw [starts, List.getElem?_append_right (by omega), size]
        rw [List.getElem?_eq_getElem h] at split
        exact List.mem_of_getElem? split.symm
      exact (of_mem_startsFrom inRest).1
  have start : (ofText (text ++ rest)).starts[text.count '\n']?.getD 0 = byteSize front := by
    simp only [ofText, List.getElem?_toArray]
    rw [there]
    rfl
  have column : takeBytes (byteSize text - byteSize front)
      (dropBytes (byteSize front) (ofText (text ++ rest)).text) = line := by
    change takeBytes _ (dropBytes _ (front ++ line ++ rest)) = line
    rw [byteSize_append, Nat.add_sub_cancel_left, List.append_assoc, dropBytes_append,
      takeBytes_append]
  unfold span
  dsimp only
  rw [lineAt, start, column, columns, Position.behind_eq, Nat.add_comm 1, Nat.add_comm 1]

end LineIndex

/-! ### Scanning with a position -/

namespace Source

open Position (behind)

/-- Tokens and errors in order, from the position at which the text starts; the last part is where
it ends. -/
def scanFrom (p : Position) : List Char → List Lexeme × List LexError × Position
  | [] => ([], [], p)
  | c :: cs =>
    let (n, piece) := pieceAt c cs
    let next := p.advance (c :: cs.take n)
    let (tokens, errors, last) := scanFrom next (cs.drop n)
    match piece with
    | .blank => (tokens, errors, last)
    | .token t => (⟨t, .between p next⟩ :: tokens, errors, last)
    | .bad cause => (tokens, ⟨cause, .between p next⟩ :: errors, last)
termination_by cs => cs.length
decreasing_by simp only [List.length_drop, List.length_cons]; omega

/-- The stretches of a text have the places that a position finds on its way. -/
theorem scanFrom_eq (before cs : List Char) :
    let index := LineIndex.ofText (before ++ cs)
    let cut := stretchesFrom (Text.byteSize before) cs
    scanFrom (behind before) cs = (cut.1.map fun t => ⟨t.what, index.span t.start t.stop⟩,
      cut.2.1.map fun e => ⟨e.what, index.span e.start e.stop⟩, behind (before ++ cs)) ∧
    cut.2.2 = Text.byteSize (before ++ cs) := by
  match cs with
  | [] =>
    dsimp only
    rw [scanFrom, stretchesFrom, List.append_nil]
    exact ⟨rfl, rfl⟩
  | c :: cs =>
    cases piece : pieceAt c cs with
    | mk n what =>
      have split : before ++ c :: cs = (before ++ c :: cs.take n) ++ cs.drop n := by simp
      obtain ⟨later, last⟩ := scanFrom_eq (before ++ c :: cs.take n) (cs.drop n)
      rw [Text.byteSize_append, ← split] at later last
      have next : (behind before).advance (c :: cs.take n) = behind (before ++ c :: cs.take n) :=
        (Position.behind_append ..).symm
      have span : Span.between (behind before) (behind (before ++ c :: cs.take n))
          = (LineIndex.ofText (before ++ c :: cs)).span (Text.byteSize before)
            (Text.byteSize before + Text.byteSize (c :: cs.take n)) := by
        rw [LineIndex.span_eq, Span.between, Position.offset_behind, Position.offset_behind,
          Text.byteSize_append]
      dsimp only at later last ⊢
      rw [scanFrom, stretchesFrom, piece]
      dsimp only
      rw [next, later]
      cases what with
      | blank => exact ⟨rfl, last⟩
      | token t =>
        dsimp only
        rw [span]
        exact ⟨rfl, last⟩
      | bad cause =>
        dsimp only
        rw [span]
        exact ⟨rfl, last⟩
termination_by cs.length
decreasing_by simp only [List.length_drop, List.length_cons]; omega

/-- A scan may be followed by a position that moves on with every character. -/
theorem scan_eq (source : String) : scan source = match scanFrom {} source.toList with
    | (tokens, [], last) => .ok ⟨tokens, .between last last⟩
    | (_, errors, _) => .error errors := by
  obtain ⟨scanned, last⟩ := scanFrom_eq [] source.toList
  have finish : Span.between (behind source.toList) (behind source.toList)
      = (LineIndex.ofText source.toList).span (Text.byteSize source.toList)
        (Text.byteSize source.toList) := by
    have looked := LineIndex.span_eq source.toList [] (Text.byteSize source.toList)
    rw [List.append_nil] at looked
    rw [looked, Span.between, Position.offset_behind]
  rw [List.nil_append] at scanned last
  change scanFrom {} source.toList = _ at scanned
  rw [scan, Text.chars_eq, scanned]
  rw [Text.byteSize_nil] at scanned last ⊢
  generalize stretchesFrom 0 source.toList = cut at last ⊢
  obtain ⟨tokens, errors, end_⟩ := cut
  obtain rfl : end_ = _ := last
  cases errors with
  | nil =>
    refine congrArg (fun last => Except.ok (Lexed.mk _ last)) finish.symm
  | cons e es => rfl

end Source

end Classwright
