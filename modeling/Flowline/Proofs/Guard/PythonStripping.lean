import Flowline.Proofs.Guard.PythonText
import Flowline.Proofs.Guard.Stripping

/-!
# Leaving out the comments of Python

The guard reads Python as the lexical rules do but for two things: to it a carriage return without a
line feed is a character as any other, and a string that is not tripled never goes on over a line
feed. Of a text in which neither makes a difference it leaves out the comments and nothing else.
-/
namespace Flowline.Guard.PythonText

open Text

/-- The number sign that begins a comment and all up to the end of the line are in it. -/
def inComment (next : Mode → Char → Mode) (m : Mode) (c : Char) : Bool := next m c == .comment

/-- The lexical rules. -/
def lexer : Scanner Mode where
  toReading := reading
  hides m c _ := inComment next m c
  hides_before _ _ _ _ _ := rfl

/-! ### The guard as a scanner -/

/-- To the guard a carriage return is a character as any other. -/
def Mode.pastReturn : Mode → Mode
  | .code | .emptied _ => .code
  | .comment => .comment
  | .opened q => .inside q false
  | .escaped q tripled => .returned q tripled
  | .inside q tripled | .returned q tripled => .inside q tripled
  | .closing q _ => .inside q true

/-- What the guard makes of a character. -/
def sight (m : Mode) (c : Char) : Mode :=
  if c = '\n' ∧ m.spills = true then .code
  else if c = '\r' then m.pastReturn
  else next m c

theorem sight_return_feed (m : Mode) : sight (sight m '\r') '\n' = sight m '\n' := by
  cases m with
  | code | comment => rfl
  | opened q | emptied q => cases q <;> rfl
  | inside q tripled | escaped q tripled | returned q tripled => cases q <;> cases tripled <;> rfl
  | closing q twice => cases q <;> cases twice <;> rfl

theorem sight_eq_next {m : Mode} {c : Char} (hc : isLineEnd c = false) : sight m c = next m c := by
  obtain ⟨hfeed, hreturn⟩ := isLineEnd_eq_false.mp hc
  simp [sight, hfeed, hreturn]

def guardScanner : Scanner Mode where
  next := sight
  parts _ _ := false
  return_feed m _ := ⟨rfl, sight_return_feed m⟩
  hides m c _ := inComment sight m c
  hides_before _ _ _ _ _ := rfl

theorem reads_return {m : Mode} (hm : m ≠ .comment) :
    Reads m.openString (m.ahead ++ ['\r']) m.pastReturn := by
  have hne : ∀ q : Quote, '\r' ≠ q.char := fun q => by cases q <;> decide
  have hcode : Reads none ['\r'] .code := .of_keeping rfl fun rest =>
    pythonCode_code rest (by decide) (by decide)
  have hinside : ∀ q tripled, Reads (some ⟨q.char, tripled⟩) ['\r'] (.inside q tripled) :=
    fun q tripled => .of_keeping rfl fun rest => pythonCode_inside rest (by decide) (hne q)
  cases m with
  | code => exact hcode
  | comment => exact absurd rfl hm
  | opened q => exact (hinside q false).after fun rest => pythonCode_opened rest (hne q)
  | emptied q => exact hcode.after fun rest => pythonCode_emptied rest (hne q)
  | inside q tripled | returned q tripled => exact hinside q tripled
  | escaped q tripled => exact .of_keeping rfl pythonCode_escaped
  | closing q twice =>
    cases twice with
    | false => exact (hinside q true).after fun rest => pythonCode_closing rest (hne q)
    | true => exact (hinside q true).after fun rest => pythonCode_closing_twice rest (hne q)

theorem reads_sight {m : Mode} {c : Char} (hc : c ≠ '\n') (hm : m ≠ .comment)
    (hsight : sight m c ≠ .comment) : Reads m.openString (m.ahead ++ [c]) (sight m c) := by
  by_cases hreturn : c = '\r'
  · subst hreturn
    exact reads_return hm
  · have hend := isLineEnd_eq_false.mpr ⟨hc, hreturn⟩
    rw [sight_eq_next hend] at hsight ⊢
    exact reads_next hend hm hsight

/-- The guard takes only a number sign for the beginning of a comment. -/
theorem next_of_sight_eq_comment {m : Mode} {c : Char} (hm : m ≠ .comment)
    (h : sight m c = .comment) : next m c = .comment := by
  unfold sight at h
  split at h
  · cases h
  · split at h
    · cases m <;> first | exact absurd rfl hm | cases h
    · exact h

/-- In a comment the rest of the line is left out. -/
theorem outside_comment {line : List Char} (h : '\n' ∉ line) :
    guardScanner.outside .comment line = [] ∧ guardScanner.scan .comment line = .comment := by
  have hnext : ∀ {c}, c ≠ '\n' → sight .comment c = .comment := by
    intro c hc
    by_cases hreturn : c = '\r'
    · subst hreturn
      rfl
    · have hend := isLineEnd_eq_false.mpr ⟨hc, hreturn⟩
      exact (sight_eq_next hend).trans (if_neg (by simp [hend]))
  exact guardScanner.outside_of_hides hnext (fun hc _ => beq_iff_eq.mpr (hnext hc)) h

/-- A character of a line that does not lead into a comment is left. -/
theorem shown_sight {m : Mode} {c : Char} (hc : c ≠ '\n') (h : sight m c ≠ .comment)
    {following : Option Char} (hfollowing : following ≠ some '\n') :
    guardScanner.shown m c following = [c] := by
  have hhides : guardScanner.hides m c following = false := beq_eq_false_iff_ne.mpr h
  rw [Scanner.shown_of_ne _ _ hc hfollowing, hhides, if_neg Bool.false_ne_true]

/-- At the end of a line the guard keeps a tripled string open. -/
theorem read_end (m : Mode) : m.read [] = (m.ahead, (m.read []).2) ∧
    (m.read []).2.filter (·.tripled) = (sight m '\n').openString := by
  cases m with
  | code | comment => exact ⟨rfl, rfl⟩
  | opened q | emptied q => cases q <;> exact ⟨rfl, rfl⟩
  | inside q tripled | escaped q tripled | returned q tripled =>
    cases q <;> cases tripled <;> exact ⟨rfl, rfl⟩
  | closing q twice => cases q <;> cases twice <;> exact ⟨rfl, rfl⟩

/-- What the guard makes of the rest of a line. -/
theorem read_eq {m : Mode} (hm : m ≠ .comment) {rest : List Char} (h : '\n' ∉ rest) :
    (m.read rest).1 = m.ahead ++ guardScanner.outside m rest ∧
      (m.read rest).2.filter (·.tripled) =
        (sight (guardScanner.scan m rest) '\n').openString := by
  induction rest generalizing m with
  | nil =>
    obtain ⟨hread, hstate⟩ := read_end m
    exact ⟨by rw [hread, Scanner.outside_nil, List.append_nil], hstate⟩
  | cons c rest ih =>
    simp only [List.mem_cons, not_or] at h
    have hc : c ≠ '\n' := Ne.symm h.1
    have hhead : rest.head? ≠ some '\n' := fun hhead => h.2 (List.mem_of_mem_head? hhead)
    rw [Scanner.outside_cons, Reading.scan_cons]
    by_cases hcomment : sight m c = .comment
    · obtain ⟨hnone, hscan⟩ := outside_comment h.2
      have hhides : ∀ d, guardScanner.hides m c d = true := fun d => beq_iff_eq.mpr hcomment
      have hnext : guardScanner.next m c = .comment := hcomment
      rw [read_comment hm (next_of_sight_eq_comment hm hcomment), hnext, hnone, hscan,
        Scanner.shown_of_ne _ _ hc hhead, hhides]
      exact ⟨by simp, rfl⟩
    · obtain ⟨kept, hkept, hread⟩ := reads_sight hc hm hcomment
      obtain ⟨hcode, hstate⟩ := ih hcomment h.2
      have hline : m.read (c :: rest) = keeping kept ((sight m c).read rest) := by
        rw [← hread, Mode.read, List.append_assoc, List.singleton_append]
      rw [hline, shown_sight hc hcomment hhead]
      refine ⟨?_, hstate⟩
      change kept ++ ((sight m c).read rest).1 = m.ahead ++ ([c] ++ guardScanner.outside _ rest)
      rw [hcode, ← List.append_assoc, hkept, List.append_assoc]
      rfl

theorem runs : guardScanner.Runs pythonLine Mode.openString Mode.startsLine where
  line {m line} hm hline := by
    obtain ⟨hcode, hstate⟩ := read_eq (m.ne_comment_of_startsLine hm) hline
    rw [m.read_of_startsLine hm] at hcode hstate
    rw [m.ahead_of_startsLine hm, List.nil_append] at hcode
    exact Prod.ext hcode hstate
  starts_next m := by
    change (sight m '\n').startsLine = true
    unfold sight
    split
    · rfl
    · exact m.startsLine_next
  return_feed := sight_return_feed

/-! ### The guard and the lexical rules -/

/-- A string that is not tripled and goes on in the next line is lost. -/
def Mode.isLost : Mode → Bool
  | .inside _ false => true
  | _ => false

/-- A carriage return ends a comment, or a string that is not tripled, by itself. -/
def partsAt (m : Mode) (c : Char) : Bool :=
  c == '\r' && match m with
    | .comment | .opened _ | .inside _ false | .returned _ false => true
    | _ => false

theorem sight_eq_of_parts {m : Mode} {c : Char} (hc : c ≠ '\n') (h : partsAt m c = false) :
    sight m c = next m c := by
  by_cases hreturn : c = '\r'
  · subst hreturn
    cases m with
    | code | escaped q tripled => rfl
    | comment | opened q => cases h
    | emptied q => cases q <;> rfl
    | inside q tripled | returned q tripled =>
      cases tripled
      · cases h
      · cases q <;> rfl
    | closing q twice => cases q <;> cases twice <;> rfl
  · exact sight_eq_next (isLineEnd_eq_false.mpr ⟨hc, hreturn⟩)

theorem sight_feed_eq {m : Mode} (h : (next m '\n').isLost = false) :
    sight m '\n' = next m '\n' := by
  cases m with
  | escaped q tripled | returned q tripled =>
    cases tripled
    · cases h
    · rfl
  | _ => rfl

theorem sight_return_feed_eq {m : Mode} (h : (next (next m '\r') '\n').isLost = false) :
    sight m '\n' = next (next m '\r') '\n' := by
  cases m with
  | code | comment => rfl
  | opened q | emptied q => cases q <;> rfl
  | inside q tripled | returned q tripled => cases q <;> cases tripled <;> rfl
  | escaped q tripled =>
    cases tripled
    · cases h
    · rfl
  | closing q twice => cases q <;> cases twice <;> rfl

theorem departs : Scanner.Departs guardScanner lexer Mode.isLost partsAt where
  next_eq := sight_eq_of_parts
  hides_eq hc h := funext fun _ => congrArg (· == Mode.comment) (sight_eq_of_parts hc h)
  feed_eq := sight_feed_eq
  return_feed_eq {m} h := (sight_return_feed m).trans (sight_return_feed_eq h)

theorem withoutComments_eq (source : List Char) :
    withoutComments .python source = guardScanner.uncommented .code source :=
  runs.unlines_codeLines (m := .code) rfl source

/-- Only an escape takes a string that is not tripled over the end of a line. -/
theorem exists_of_isLost_feed {m : Mode} (h : (next m '\n').isLost = true) :
    ∃ q, m = .escaped q false ∨ m = .returned q false := by
  cases m with
  | escaped q tripled | returned q tripled =>
    cases tripled with
    | false => exact ⟨q, by simp⟩
    | true => cases h
  | inside q tripled => cases q <;> cases tripled <;> cases h
  | closing q twice => cases q <;> cases twice <;> cases h
  | opened q | emptied q => cases q <;> cases h
  | code | comment => cases h

theorem exists_of_isLost_return_feed {m : Mode} (h : (next (next m '\r') '\n').isLost = true) :
    ∃ q, m = .escaped q false := by
  cases m with
  | escaped q tripled =>
    cases tripled with
    | false => exact ⟨q, rfl⟩
    | true => cases h
  | inside q tripled | returned q tripled => cases q <;> cases tripled <;> cases h
  | closing q twice => cases q <;> cases twice <;> cases h
  | opened q | emptied q => cases q <;> cases h
  | code | comment => cases h

/-- After a parting the guard takes for a comment what is none. -/
theorem exists_hidden {m : Mode} {e : List Char} (h : lexer.Parting Mode.isLost partsAt m e) :
    ∃ t, t.head? ≠ some '\n' ∧ lexer.clear Mode.isLost partsAt (lexer.scan m e) t = true ∧
      (guardScanner.outside m (e ++ t)).length < (lexer.outside m (e ++ t)).length := by
  cases h with
  | feed h =>
    obtain ⟨q, rfl | rfl⟩ := exists_of_isLost_feed h <;> exact ⟨['#'], by cases q <;> decide⟩
  | return_feed h =>
    obtain ⟨q, rfl⟩ := exists_of_isLost_return_feed h
    exact ⟨['#'], by cases q <;> decide⟩
  | @other c hc h =>
    obtain ⟨rfl, h⟩ : c = '\r' ∧ _ := by simpa [partsAt] using h
    cases m with
    | comment => exact ⟨['x'], by decide⟩
    | opened q => exact ⟨[q.char, '#'], by cases q <;> decide⟩
    | inside q tripled | returned q tripled =>
      cases tripled with
      | false => exact ⟨[q.char, '#'], by cases q <;> decide⟩
      | true => cases h
    | code | emptied q | escaped q tripled | closing q twice => cases h

/-- The guard leaves of a source what the lexical rules leave of it, if no string that is not
tripled goes on over the end of a line, and no carriage return by itself ends such a string or a
comment. After the first place where one does, it can leave out code. -/
theorem withoutComments_python (source : List Char) :
    (lexer.clear Mode.isLost partsAt .code source = true →
      withoutComments .python source = lexer.uncommented .code source) ∧
    (lexer.clear Mode.isLost partsAt .code source = false →
      ∃ before e rest after, source = before ++ e ++ rest ∧
        lexer.clear Mode.isLost partsAt .code before = true ∧
        lexer.Parting Mode.isLost partsAt (lexer.scan .code before) e ∧ after.head? ≠ some '\n' ∧
        lexer.clear Mode.isLost partsAt (lexer.scan .code (before ++ e)) after = true ∧
        (withoutComments .python (before ++ e ++ after)).length <
          (lexer.uncommented .code (before ++ e ++ after)).length) := by
  have hplain : ∀ m, partsAt m '/' = false ∧ partsAt m '*' = false := fun m => ⟨rfl, rfl⟩
  simp only [withoutComments_eq]
  exact ⟨departs.uncommented_eq, departs.exists_lt hplain exists_hidden⟩

/-- Escapes in both kinds of strings, a tripled string over two lines, a carriage return in code and
one in a tripled string, and comments at the ends of lines; and what follows a string over an
escaped end of a line. -/
theorem escapes_stripped :
    withoutComments .python
        "x = 'a\\'#' # 1\r\ny = \"\"\"# \\\"\r#\n\"\"\"\r# 2\nz = 3 # 4".toList =
      "x = 'a\\'#' \ny = \"\"\"# \\\"\r#\n\"\"\"\r\nz = 3 \n".toList ∧
    ∃ before e rest after, "x = 'a\\\n#'\n".toList = before ++ e ++ rest ∧
      (withoutComments .python (before ++ e ++ after)).length <
        (lexer.uncommented .code (before ++ e ++ after)).length := by
  refine ⟨?_, ?_⟩
  · rw [(withoutComments_python _).1 (by decide +kernel)]
    decide +kernel
  · obtain ⟨before, e, rest, after, hsource, -, -, -, -, hlt⟩ :=
      (withoutComments_python "x = 'a\\\n#'\n".toList).2 (by decide +kernel)
    exact ⟨before, e, rest, after, hsource, hlt⟩

/-- A string that goes on over an escaped end of a line hides what follows it, and a comment hides
what follows the carriage return that ends it. -/
theorem hidden_by_strings :
    withoutComments .python "x = 'a\\\n#'; import os\n".toList = "x = 'a\\\n\n".toList ∧
    lexer.uncommented .code "x = 'a\\\n#'; import os\n".toList =
      "x = 'a\\\n#'; import os\n".toList ∧
    withoutComments .python "# a\rimport os\n".toList = "\n".toList ∧
    lexer.uncommented .code "# a\rimport os\n".toList = "\rimport os\n".toList ∧
    ["x = 'a\\\n#'; import os\n", "# a\rimport os\n"].filterMap (refusal? {} .python) = [] := by
  decide +kernel

end Flowline.Guard.PythonText
