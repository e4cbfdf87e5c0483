import Classwright.Proofs.Declarations
import Classwright.Proofs.Tiling
import Classwright.Proofs.Transport
import Mathlib.Order.MinMax

/-!
# Layout

White space and comments mean nothing: two sources with the same tokens are compiled to the same
class, or have the same faults in the same order. Every source is compared with its tokens laid out
in a canonical way, one place for each; a source keeps the order of its places, so that sorting by
them gives the same order, too.
-/

namespace Classwright

def Lexed.relocate (f : Span → Span) (l : Lexed) : Lexed :=
  ⟨l.tokens.map (Lexeme.relocate f), f l.finish⟩

namespace Source

/-! ### Sources moved as a whole -/

def Cursor.relocate (f : Span → Span) (c : Cursor) : Cursor :=
  ⟨c.rest.map (Lexeme.relocate f), f c.finish, f c.previous⟩

variable {f : Span → Span}

/-- A source that ends at `finish`, and the same source with all of it moved. -/
def Tandem.moved (carries : Span.Carries f) (finish : Span) : Tandem :=
  .throughout carries finish (f finish) (fun ts ts' => ts' = ts.map (Lexeme.relocate f)) <| by
    rintro (_ | ⟨⟨t, s⟩, us⟩) _ rfl
    · exact .inl ⟨rfl, rfl, rfl⟩
    · exact .inr ⟨t, s, us, us.map (Lexeme.relocate f), rfl, rfl, rfl⟩

namespace Cursor

variable {c : Cursor}

theorem facing_relocate (carries : Span.Carries f) (k : Nat) (c : Cursor) :
    (Tandem.moved carries c.finish).Facing k c (c.relocate f) := ⟨rfl, rfl, rfl⟩

/-- Cursors that have gone the same way are still one another's relocations. -/
theorem eq_relocate_of_on {carries : Span.Carries f} {finish : Span} {d d' : Cursor}
    {R : List Lexeme → List Lexeme → Prop}
    (same : ∀ ts ts', R ts ts' → ts' = ts.map (Lexeme.relocate f))
    (on : (Tandem.moved carries finish).On R d d') : d' = d.relocate f := by
  obtain ⟨rest, f, p⟩ := d
  obtain ⟨rest', f', p'⟩ := d'
  obtain ⟨within, rfl, rfl, rfl⟩ := on
  obtain rfl := same _ _ within
  rfl

theorem relocate_rest_cons {t : Lexeme} {ts : List Lexeme} (whole : c.rest = t :: ts) :
    (c.relocate f).rest = t.relocate f :: ts.map (Lexeme.relocate f) := by
  rw [relocate, whole]
  rfl

theorem skipDeclaration_relocate (last : Span) (depth : Nat) (ts : List Lexeme) :
    skipDeclaration (f last) depth (ts.map (Lexeme.relocate f))
      = (f (skipDeclaration last depth ts).1,
        (skipDeclaration last depth ts).2.map (Lexeme.relocate f)) := by
  fun_induction skipDeclaration last depth ts <;>
    simp_all [skipDeclaration]

theorem passDeclaration_relocate (c : Cursor) :
    (c.relocate f).passDeclaration = c.passDeclaration.relocate f := by
  simp only [passDeclaration, relocate, skipDeclaration_relocate]

theorem members_relocate (carries : Span.Carries f) (className : String) (c : Cursor) :
    members className (c.relocate f)
      = ((members className c).1.map (Member.relocate f),
        (members className c).2.1.map (SyntaxError.relocate f),
        (members className c).2.2.relocate f) := by
  have alike := fun c : Cursor => Tandem.member_alike className (facing_relocate carries 0 c)
  induction c using members.induct className with
  | case1 c whole =>
    have whole' : (c.relocate f).rest = [] := List.map_eq_nil_iff.2 whole
    rw [members_of_closed (by simp [whole']), members_of_closed (by simp [whole])]
    rfl
  | case2 c l us whole closed =>
    rw [members_of_closed (by simp [relocate_rest_cons whole, closed]),
      members_of_closed (by simp [whole, closed])]
    rfl
  | case3 c l us whole open_ m d shorter read ms es last _ ih =>
    obtain ⟨d', read', on⟩ := (alike c).of_ok ⟨shorter, read⟩
    obtain rfl := eq_relocate_of_on (fun _ _ => id) on
    rw [members_of_ok whole open_ ⟨shorter, read⟩,
      members_of_ok (relocate_rest_cons whole) open_ read', ih]
    rfl
  | case4 c l us whole open_ e stop failed shorter ms es last _ ih =>
    obtain ⟨d', failed'⟩ := (alike c).of_error failed
    rw [members_of_error whole open_ failed,
      members_of_error (relocate_rest_cons whole) open_ failed', passDeclaration_relocate, ih]
    rfl

theorem importPath_relocate (carries : Span.Carries f) (start : Span) (c : Cursor) :
    importPath (f start) (c.relocate f)
      = (((importPath start c).1.map (Import.relocate f)).mapError (SyntaxError.relocate f),
        (importPath start c).2.relocate f) := by
  have path := Tandem.qualifiedName_alike (facing_relocate carries 0 c)
  unfold importPath
  cases read : c.qualifiedName with
  | error e d =>
    obtain ⟨d', failed⟩ := path.of_error read
    rw [failed]
    rfl
  | ok name d shorter =>
    obtain ⟨_, ⟨shorter', read'⟩, on⟩ := path.of_ok ⟨shorter, read⟩
    obtain rfl := eq_relocate_of_on (fun _ _ => id) on
    have ends : Step.Alike f id _ (d.expectSymbol .semicolon)
        ((d.relocate f).expectSymbol .semicolon) :=
      Tandem.expect_alike (facing_relocate carries 0 d) fun _ _ next => next.semicolon rfl
    rw [read']
    dsimp only
    cases read : d.expectSymbol .semicolon with
    | error e _ =>
      obtain ⟨_, failed⟩ := ends.of_error read
      rw [failed]
      rfl
    | ok _ e shorter =>
      obtain ⟨_, ⟨_, read'⟩, on⟩ := ends.of_ok ⟨shorter, read⟩
      obtain rfl := eq_relocate_of_on (fun _ _ => id) on
      rw [read']
      have covered := carries start e.previous
      simp only [Except.map, Import.relocate, covered]
      rfl

theorem imports_relocate (carries : Span.Carries f) (c : Cursor) :
    imports (c.relocate f)
      = ((imports c).1.map (Import.relocate f), (imports c).2.1.map (SyntaxError.relocate f),
        (imports c).2.2.relocate f) := by
  have path : ∀ (c : Cursor) (s : Span) (us : List Lexeme),
      importPath (f s) ((c.relocate f).past ⟨.keyword .import_, f s⟩
        (us.map (Lexeme.relocate f))) = _ :=
    fun c s us => importPath_relocate carries s (c.past ⟨.keyword .import_, s⟩ us)
  induction c using imports.induct with
  | case1 c s us whole _ _ _ i d _ read _ is es last _ ih =>
    rw [imports_of_import whole, imports_of_import (relocate_rest_cons whole), path, read]
    dsimp only [Except.map, Except.mapError]
    rw [ih]
    rfl
  | case2 c s us whole _ _ _ e d _ read _ is es last _ ih =>
    rw [imports_of_import whole, imports_of_import (relocate_rest_cons whole), path, read]
    dsimp only [Except.map, Except.mapError]
    rw [passDeclaration_relocate, ih]
    rfl
  | case3 c other =>
    have other' : ∀ s us, (c.relocate f).rest ≠ ⟨.keyword .import_, s⟩ :: us := by
      intro s us same
      obtain ⟨⟨t, s'⟩, us', whole, first, -⟩ := List.map_eq_cons_iff.1 same
      cases first
      exact other s' us' whole
    rw [imports_of_other other, imports_of_other other']
    rfl

theorem classDecl_relocate (carries : Span.Carries f) (c : Cursor) :
    (classDecl (c.relocate f)).1 = (classDecl c).1.map (SyntaxError.relocate f) ∧
      Step.Alike f (ClassDecl.relocate f) (fun d d' => d' = d.relocate f) (classDecl c).2
        (classDecl (c.relocate f)).2 := by
  have heads := Tandem.header_alike (facing_relocate carries 0 c)
  unfold classDecl
  cases read : c.header with
  | error e d =>
    obtain ⟨d', failed⟩ := heads.of_error read
    rw [failed]
    exact ⟨rfl, rfl⟩
  | ok head d shorter =>
    obtain ⟨d', ⟨shorter', read'⟩, on⟩ := heads.of_ok ⟨shorter, read⟩
    obtain rfl := eq_relocate_of_on (fun _ _ => id) on
    have ends := Tandem.expect_alike (t := .symbol .rightBrace)
      (facing_relocate carries 1 (members head.name d).2.2) fun _ _ next => next.closing 0 rfl rfl
    have bodies : members (head.relocate f).name (d.relocate f) = _ :=
      members_relocate carries head.name d
    rw [read']
    dsimp only [Tandem.moved, Tandem.throughout]
    rw [Step.alike_upTo]
    generalize members (head.relocate f).name (d.relocate f) = body at bodies
    subst bodies
    refine ⟨rfl, (ends.weaken fun _ _ => eq_relocate_of_on fun _ _ => id).mapAt ?_⟩
    rintro _ e _ rfl
    have covered := carries c.span e.previous
    have start : (c.relocate f).span = f c.span := (facing_relocate carries 0 c).span
    rw [start]
    simp only [ClassDecl.relocate, covered]
    rfl

theorem ofLexed_relocate (f : Span → Span) (l : Lexed) :
    ofLexed (l.relocate f) = (ofLexed l).relocate f := by
  obtain ⟨tokens, finish⟩ := l
  cases tokens <;> rfl

end Cursor

/-- A source that has been moved has the same tree, or the same errors, where it now stands. -/
theorem parse_relocate (carries : Span.Carries f) (l : Lexed) :
    parse (l.relocate f) = ((parse l).map (CompilationUnit.relocate f)).mapError
      (List.map (SyntaxError.relocate f)) := by
  unfold parse
  rw [Cursor.ofLexed_relocate, Cursor.imports_relocate carries]
  obtain ⟨imports, importErrors, c⟩ := (Cursor.ofLexed l).imports
  obtain ⟨memberErrors, decl⟩ := Cursor.classDecl_relocate carries c
  dsimp only
  generalize (c.relocate f).classDecl = read' at memberErrors decl ⊢
  generalize c.classDecl = read at memberErrors decl ⊢
  obtain ⟨es, step⟩ := read
  obtain ⟨es', step'⟩ := read'
  dsimp only at memberErrors decl
  subst memberErrors
  cases step with
  | error e d =>
    obtain ⟨d', rfl⟩ := decl.of_error rfl
    simp [Except.map, Except.mapError]
  | ok decl_ d shorter =>
    obtain ⟨_, ⟨_, rfl⟩, rfl⟩ := decl.of_ok ⟨shorter, rfl⟩
    have trailing : (if (d.relocate f).rest.isEmpty then []
          else [(⟨.secondClass, (d.relocate f).span, none⟩ : SyntaxError)])
        = (if d.rest.isEmpty then []
          else [(⟨.secondClass, d.span, none⟩ : SyntaxError)]).map (SyntaxError.relocate f) := by
      rw [(Cursor.facing_relocate carries 0 d).span, Cursor.relocate, List.isEmpty_map]
      split <;> rfl
    dsimp only
    rw [trailing, ← List.map_append, ← List.map_append]
    generalize importErrors ++ es ++ _ = errors
    cases errors <;> rfl

end Source

/-! ### Layouts -/

namespace Lexed

/-- The tokens with one place for each: `i` is where token number `i` stands. -/
def numbered (ts : List Token) : Lexed :=
  ⟨ts.mapIdx fun i t => ⟨t, ⟨i, i, 0, 0⟩⟩, ⟨ts.length, ts.length, 0, 0⟩⟩

variable (l : Lexed)

/-- Where token number `i` stands; the end, if there are fewer tokens. -/
def slot (i : Nat) : Span := (l.tokens[i]?.map (·.span)).getD l.finish

/-- Where in the source a stretch of numbered tokens is. -/
def place (s : Span) : Span :=
  ⟨(l.slot s.start).start, (l.slot s.stop).stop, (l.slot s.start).line, (l.slot s.start).column⟩

variable {l}

theorem slot_of_lt {i : Nat} (some_ : i < l.tokens.length) : l.slot i = l.tokens[i].span := by
  rw [slot, List.getElem?_eq_getElem some_]
  rfl

theorem slot_of_le {i : Nat} (none_ : l.tokens.length ≤ i) : l.slot i = l.finish := by
  rw [slot, List.getElem?_eq_none none_]
  rfl

/-- Every source is its numbered tokens in their places. -/
theorem relocate_place (l : Lexed) :
    (numbered (l.tokens.map (·.token))).relocate l.place = l := by
  have tokens : ((l.tokens.map (·.token)).mapIdx fun i t => Lexeme.mk t ⟨i, i, 0, 0⟩).map
      (Lexeme.relocate l.place) = l.tokens := by
    refine List.ext_getElem (by simp) fun i _ some_ => ?_
    simp [Lexeme.relocate, place, slot_of_lt some_]
  have finish : l.place ⟨l.tokens.length, l.tokens.length, 0, 0⟩ = l.finish := by
    simp [place, slot_of_le]
  rw [numbered, relocate, tokens, List.length_map, finish]

section Tiles

variable {source : String}

theorem Tiles.start_le_stop (tiles : l.Tiles source) (i : Nat) :
    (l.slot i).start ≤ (l.slot i).stop := by
  have held : ∃ text, (l.slot i).Holds source text := by
    rcases Nat.lt_or_ge i l.tokens.length with some_ | none_
    · obtain ⟨text, -, held⟩ := tiles.tokens _ (List.getElem_mem some_)
      exact ⟨text, slot_of_lt some_ ▸ held⟩
    · exact ⟨"", slot_of_le none_ ▸ tiles.finish.1⟩
  obtain ⟨text, before, after, -, start, stop, -⟩ := held
  rw [start, stop, String.utf8ByteSize_append]
  exact Nat.le_add_right ..

theorem Tiles.before (tiles : l.Tiles source) {i j : Nat} (some_ : i < l.tokens.length)
    (earlier : i < j) : (l.slot i).Before (l.slot j) := by
  obtain ⟨tokens, -, finish⟩ := List.pairwise_append.1 tiles.apart
  rw [slot_of_lt some_]
  rcases Nat.lt_or_ge j l.tokens.length with some' | none_
  · rw [slot_of_lt some']
    exact List.pairwise_iff_getElem.1 (List.pairwise_map.1 tokens) i j some_ some' earlier
  · rw [slot_of_le none_]
    exact finish _ (List.mem_map_of_mem (List.getElem_mem some_)) _ (List.mem_singleton_self _)

theorem Tiles.stop_mono (tiles : l.Tiles source) : Monotone fun i => (l.slot i).stop := by
  intro i j le
  rcases Nat.lt_or_ge i l.tokens.length with some_ | none_
  · rcases Nat.eq_or_lt_of_le le with rfl | earlier
    · exact Nat.le_refl _
    · exact (tiles.before some_ earlier).apart.trans (tiles.start_le_stop j)
  · dsimp only
    rw [slot_of_le none_, slot_of_le (none_.trans le)]

theorem Tiles.carries (tiles : l.Tiles source) : Span.Carries l.place := fun s t => by
  have stop := tiles.stop_mono.map_max (a := t.stop) (b := s.stop)
  simp only [place, Span.through, stop]

end Tiles

end Lexed

/-! ### Faults in order -/

namespace Check.Diagnostic

variable {l : Lexed} {source : String}

/-- Whether `a` stands no later than `b`, among `n` numbered tokens. -/
def notAfterAmong (n : Nat) (a b : Diagnostic) : Bool :=
  decide (min a.span.start n ≤ min b.span.start n)

theorem notAfter_place (tiles : l.Tiles source) (a b : Diagnostic) :
    (a.relocate l.place).notAfter (b.relocate l.place)
      = notAfterAmong l.tokens.length a b := by
  have here : (a.relocate l.place).notAfter (b.relocate l.place)
      = ((l.slot a.span.start).line < (l.slot b.span.start).line
        || ((l.slot a.span.start).line == (l.slot b.span.start).line
          && (l.slot a.span.start).column ≤ (l.slot b.span.start).column) : Bool) := rfl
  rw [here, notAfterAmong]
  generalize a.span.start = i
  generalize b.span.start = j
  generalize size : l.tokens.length = n
  -- either one token is in front of the other, or both faults are at the same token or the end
  by_cases before : i < n ∧ i < j
  · obtain ⟨-, -, place⟩ := tiles.before (size ▸ before.1) before.2
    have order : min i n ≤ min j n := by omega
    rcases place with line | ⟨line, column⟩
    · simp [line, order]
    · simp [line, column.le, order]
  · by_cases behind : j < n ∧ j < i
    · obtain ⟨-, -, place⟩ := tiles.before (size ▸ behind.1) behind.2
      have order : ¬ min i n ≤ min j n := by omega
      rcases place with line | ⟨line, column⟩
      · simp [line.not_gt, line.ne', order]
      · simp [line, column.not_ge, order]
    · have order : min i n ≤ min j n := by omega
      have same : l.slot i = l.slot j := by
        by_cases none_ : n ≤ i ∧ n ≤ j
        · rw [Lexed.slot_of_le (size ▸ none_.1), Lexed.slot_of_le (size ▸ none_.2)]
        · obtain rfl : i = j := by omega
          rfl
      simp [same, order]

/-- A source keeps its faults in the order of their tokens. -/
theorem mergeSort_place (tiles : l.Tiles source) (ds : List Diagnostic) :
    (ds.map (relocate l.place)).mergeSort notAfter
      = (ds.mergeSort (notAfterAmong l.tokens.length)).map (relocate l.place) :=
  (List.map_mergeSort fun a _ b _ => (notAfter_place tiles a b).symm).symm

end Check.Diagnostic

/-! ### Compiling -/

def LexError.relocate (f : Span → Span) (e : LexError) : LexError := ⟨e.cause, f e.span⟩

namespace CompileError

def relocate (f : Span → Span) : CompileError → CompileError
  | tokens errors => .tokens (errors.map (LexError.relocate f))
  | grammar errors => .grammar (errors.map (Source.SyntaxError.relocate f))
  | check errors => .check (errors.map (Check.Diagnostic.relocate f))

/-- The errors without their places. -/
def bare (e : CompileError) : CompileError := e.relocate fun _ => .blank

/-- What the errors say, wherever they are. -/
def messages : CompileError → List String
  | tokens errors => errors.map (·.description)
  | grammar errors => errors.map (·.message)
  | check errors => errors.map (·.cause.message)

@[simp] theorem bare_relocate (f : Span → Span) (e : CompileError) :
    (e.relocate f).bare = e.bare := by
  cases e <;> simp only [bare, relocate, List.map_map] <;> rfl

@[simp] theorem messages_relocate (f : Span → Span) (e : CompileError) :
    (e.relocate f).messages = e.messages := by
  cases e <;> simp only [messages, relocate, List.map_map] <;> rfl

end CompileError

/-- What comes of a source with these tokens, apart from places. -/
def compileNumbered (table : TypeTable) (ts : List Token) : Except CompileError Code.Class :=
  match Source.parse (Lexed.numbered ts) with
  | .error errors => .error (.grammar errors)
  | .ok unit =>
    let (code, errors) := Check.examine table unit
    if errors = [] then .ok code
    else .error (.check (errors.mergeSort (Check.Diagnostic.notAfterAmong ts.length)))

/-- A source is compiled as its numbered tokens are; its errors are those at their places in it. -/
theorem compileSource_eq {source : String} {l : Lexed} (scanned : Source.scan source = .ok l)
    (table : TypeTable) :
    compileSource table source
      = (compileNumbered table (l.tokens.map (·.token))).mapError
        (CompileError.relocate l.place) := by
  have tiles := Source.tiles_of_scan scanned
  have parsed := Source.parse_relocate tiles.carries (.numbered (l.tokens.map (·.token)))
  rw [l.relocate_place] at parsed
  unfold compileSource compileNumbered
  simp only [scanned, Except.mapError, bind, Except.bind, parsed]
  cases Source.parse (.numbered (l.tokens.map (·.token))) with
  | error errors => rfl
  | ok unit =>
    change (Check.compileUnit table (unit.relocate l.place)).mapError CompileError.check = _
    rw [Check.compileUnit_eq, Check.examine_relocate]
    dsimp only
    by_cases clean : (Check.examine table unit).2 = []
    · rw [if_pos clean, if_pos (List.map_eq_nil_iff.2 clean)]
      rfl
    · rw [if_neg clean, if_neg (clean ∘ List.map_eq_nil_iff.1),
        Check.Diagnostic.mergeSort_place tiles, List.length_map]
      rfl

theorem compileSource_of_examined {table : TypeTable} {source : String}
    (faults : List Check.Diagnostic)
    (examined : ((Source.scan source).toOption.bind fun l => (Source.parse l).toOption).map
      (fun unit => (Check.examine table unit).2) = some faults) (faulty : faults ≠ []) :
    compileSource table source = .error (.check (faults.mergeSort Check.Diagnostic.notAfter)) := by
  unfold compileSource
  cases scanned : Source.scan source with
  | error errors => simp [scanned, Except.toOption] at examined
  | ok l =>
    cases parsed : Source.parse l with
    | error errors => simp [scanned, parsed, Except.toOption] at examined
    | ok unit =>
      have same : (Check.examine table unit).2 = faults := by
        simpa [scanned, parsed, Except.toOption] using examined
      simp only [Except.mapError, bind, Except.bind, parsed, Check.compileUnit_eq, same,
        if_neg faulty]

/-- Layout means nothing: sources with the same tokens are compiled to the same class, or have the
same errors in the same order, each at its place in the source. -/
theorem compileSource_layout {source source' : String} {l l' : Lexed}
    (scanned : Source.scan source = .ok l) (scanned' : Source.scan source' = .ok l')
    (same : l.tokens.map (·.token) = l'.tokens.map (·.token)) (table : TypeTable) :
    (∃ code, compileSource table source = .ok code ∧ compileSource table source' = .ok code) ∨
      ∃ e e', compileSource table source = .error e ∧ compileSource table source' = .error e' ∧
        e.messages = e'.messages ∧ e.bare = e'.bare := by
  rw [compileSource_eq scanned, compileSource_eq scanned', same]
  cases compileNumbered table (l'.tokens.map (·.token)) with
  | ok code => exact .inl ⟨code, rfl, rfl⟩
  | error e => exact .inr ⟨_, _, rfl, rfl, by simp, by simp⟩

namespace Sample

def crowded : String :=
  "class Till { int sum() { return no; } int sum() { return true; } Odd x; }"

def spread : String :=
  "class Till { // sums
  int sum()
  { return /* what? */ no; }

  int
  sum() { return
true; }
  Odd x;
}"

/-- Everything wrong with `crowded`: the clash of the methods and the unknown type are found before
the bodies are looked into. -/
def crowdedFaults : List Check.Diagnostic :=
  [⟨.duplicateMethod "sum()" "Till", ⟨38, 64, 1, 39⟩⟩, ⟨.unknownClass "Odd", ⟨65, 68, 1, 66⟩⟩,
    ⟨.unknownVariable "no", ⟨32, 34, 1, 33⟩⟩, ⟨.incompatible "boolean" "int", ⟨57, 61, 1, 58⟩⟩]

def crowdedMessages : List String :=
  ["cannot find symbol: variable no",
    "method sum() is already defined in class Till",
    "incompatible types: boolean cannot be converted to int",
    "cannot find symbol: class Odd"]

theorem crowded_fails :
    ∃ e, compileSource {} crowded = .error e ∧ e.messages = crowdedMessages := by
  have sorted : crowdedFaults.mergeSort Check.Diagnostic.notAfter
      = [crowdedFaults[2], crowdedFaults[0], crowdedFaults[3], crowdedFaults[1]] := by
    simp [crowdedFaults, List.mergeSort, List.MergeSort.Internal.splitInTwo,
      Check.Diagnostic.notAfter]
  have fails : compileSource {} crowded = _ :=
    compileSource_of_examined crowdedFaults (by decide +kernel) (by decide)
  rw [sorted] at fails
  exact ⟨_, fails, by decide +kernel⟩

/-- The methods stay in their order when they are spread over more lines. -/
theorem crowded_spread : ∃ l l', Source.scan crowded = .ok l ∧ Source.scan spread = .ok l' ∧
    l.tokens.map (·.token) = l'.tokens.map (·.token) ∧
    ∃ e, compileSource {} spread = .error e ∧ e.messages = crowdedMessages := by
  have tokens : (Source.scan crowded).toOption.isSome = true ∧
      (Source.scan crowded).toOption.map (·.tokens.map (·.token))
        = (Source.scan spread).toOption.map (·.tokens.map (·.token)) := by decide +kernel
  cases scanned : Source.scan crowded with
  | error errors => simp [scanned, Except.toOption] at tokens
  | ok l =>
    cases scanned' : Source.scan spread with
    | error errors => simp [scanned, scanned', Except.toOption] at tokens
    | ok l' =>
      have same : l.tokens.map (·.token) = l'.tokens.map (·.token) := by
        simpa [scanned, scanned', Except.toOption] using tokens
      refine ⟨l, l', rfl, rfl, same, ?_⟩
      obtain ⟨e, failed, messages⟩ := crowded_fails
      obtain ⟨code, compiled, -⟩ | ⟨_, e', failed₁, failed', alike, -⟩ :=
        compileSource_layout scanned scanned' same {}
      · cases compiled.symm.trans failed
      · cases failed₁.symm.trans failed
        exact ⟨e', failed', alike.symm.trans messages⟩

end Sample

end Classwright
