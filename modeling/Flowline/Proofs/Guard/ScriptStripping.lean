import Flowline.Proofs.Guard.ScriptText
import Flowline.Proofs.Guard.Stripping

/-!
# Leaving out the comments of JavaScript

The guard reads JavaScript without regular expressions as the lexical rules do but for two things:
only a line feed, with or without a carriage return, ends a line for it, and no string or template
goes on over one. Of a text in which neither makes a difference it leaves out the comments and
nothing else.
-/
namespace Flowline.Guard.ScriptText

open Text

/-- The slashes and stars at the ends of a comment are in it. -/
def inComment (next : Mode → Char → Mode) (m : Mode) (c : Char) (following : Option Char) : Bool :=
  (next m c).inComment || m == .star && c == '/' ||
    next m c == .slash && (following == some '/' || following == some '*')

theorem inComment_before (next : Mode → Char → Mode) (m : Mode) (c : Char) {d : Char}
    (hslash : d ≠ '/') (hstar : d ≠ '*') :
    inComment next m c (some d) = inComment next m c none := by
  simp [inComment, hslash, hstar]

/-- The lexical rules. -/
def lexer : Scanner Mode where
  toReading := reading
  hides := inComment next
  hides_before := inComment_before next

/-! ### The guard as a scanner -/

/-- To the guard a carriage return is a character as any other. -/
def Mode.pastReturn : Mode → Mode
  | .code | .slash => .code
  | .line => .line
  | .block | .star => .block
  | .escaped q => .returned q
  | .text q | .returned q => .text q

/-- What the guard makes of a character. -/
def sight (m : Mode) (c : Char) : Mode :=
  if c = '\n' ∧ m.spills = true then .code
  else if c = '\r' then m.pastReturn
  else if isSeparator c = true ∧ m = .line then .line
  else next m c

theorem sight_return_feed (m : Mode) : sight (sight m '\r') '\n' = sight m '\n' := by
  cases m with
  | code | slash | line | block | star => rfl
  | text q | escaped q | returned q => cases q <;> rfl

theorem sight_eq_next {m : Mode} {c : Char} (hc : isLineEnd c = false)
    (h : isSeparator c = true → m ≠ .line) : sight m c = next m c := by
  obtain ⟨hfeed, hreturn⟩ := isLineEnd_eq_false.mp hc
  rw [sight, if_neg fun h => hfeed h.1, if_neg hreturn, if_neg fun hline => h hline.1 hline.2]

def guardScanner : Scanner Mode where
  next := sight
  parts _ _ := false
  return_feed m _ := ⟨rfl, sight_return_feed m⟩
  hides := inComment sight
  hides_before := inComment_before sight

/-- What has been read and is kept or not, as the next character decides. -/
def Mode.pending (m : Mode) (following : Option Char) : List Char :=
  match m with
  | .slash => if following = some '/' ∨ following = some '*' then [] else ['/']
  | .escaped _ => ['\\']
  | _ => []

/-- A carriage return within a line is a character as any other. -/
theorem reads_sight {m : Mode} {c : Char} (hc : c ≠ '\n') (hm : m.settled = true) :
    Reads m [c] (sight m c) := by
  have hline : m ≠ .line := by
    rintro rfl
    cases hm
  by_cases hreturn : c = '\r'
  · subst hreturn
    have hne : ∀ q : Quote, '\r' ≠ q.char := fun q => by cases q <;> decide
    cases m with
    | code => exact .of_keeping rfl fun rest => scriptCode_code rest (by decide) (by decide)
    | text q | returned q =>
      exact .of_keeping rfl fun rest => scriptCode_text rest (by decide) (hne q)
    | escaped q => exact .of_keeping rfl scriptCode_escaped
    | slash | line | block | star => cases hm
  · have hend := isLineEnd_eq_false.mpr ⟨hc, hreturn⟩
    rw [sight_eq_next hend fun _ => hline]
    exact reads_of_settled hend hm

/-- Of a character, and of what is pending, the guard keeps what the scanner shows. -/
def Keeps (m : Mode) (c : Char) (rest : List Char) : Prop :=
  ∃ kept, m.read (c :: rest) = keeping kept ((sight m c).read rest) ∧
    kept ++ (sight m c).pending rest.head? = m.pending (some c) ++ guardScanner.shown m c rest.head?

/-- What the guard keeps of a character that is followed by no comment and has no part in one. -/
theorem Reads.keeps {m m' : Mode} {c : Char} (h : Reads m [c] m') (hsight : sight m c = m')
    (hc : c ≠ '\n') (hm : m ≠ .star) (hpending : m.pending (some c) = m.ahead)
    (hm' : m'.settled = true) {rest : List Char} (hrest : rest.head? ≠ some '\n') :
    Keeps m c rest := by
  obtain ⟨kept, hkept, hread⟩ := h
  have hahead : m'.pending rest.head? = m'.ahead := by
    cases m' <;> first | rfl | cases hm'
  have hhides : guardScanner.hides m c rest.head? = false := by
    change inComment sight m c rest.head? = false
    have hstar : (m == .star) = false := beq_eq_false_iff_ne.mpr hm
    rw [inComment, hsight, hstar]
    cases m' <;> first | rfl | cases hm'
  rw [Keeps, hsight]
  refine ⟨kept, hread rest, ?_⟩
  rw [hahead, hkept, hpending, Scanner.shown_of_ne _ _ hc hrest, hhides, if_neg Bool.false_ne_true]

/-- In a comment the guard keeps nothing. -/
theorem keeps_of_hides {m : Mode} {c : Char} {rest : List Char} (hc : c ≠ '\n')
    (hrest : rest.head? ≠ some '\n') (hhides : guardScanner.hides m c rest.head? = true)
    (hread : m.read (c :: rest) = (sight m c).read rest)
    (hpending : m.pending (some c) = [] ∧ (sight m c).pending rest.head? = []) :
    Keeps m c rest := by
  refine ⟨[], hread, ?_⟩
  rw [hpending.1, hpending.2, Scanner.shown_of_ne _ _ hc hrest, if_pos hhides]

theorem settled_nextInCode {c : Char} (hc : c ≠ '/') : (nextInCode c).settled = true := by
  unfold nextInCode
  rw [if_neg hc]
  split
  · rfl
  · split
    · rfl
    · split <;> rfl

theorem settled_nextInText (q : Quote) (c : Char) : (nextInText q c).settled = true := by
  unfold nextInText
  split
  · rfl
  · split
    · rfl
    · split <;> rfl

/-- From code only a slash leads towards a comment. -/
theorem settled_sight {m : Mode} {c : Char} (hm : m.settled = true)
    (hslash : m = .code → c ≠ '/') : (sight m c).settled = true := by
  unfold sight
  split
  · rfl
  split
  · cases m <;> first | rfl | cases hm
  split
  · rename_i hline
    rw [hline.2] at hm
    cases hm
  cases m with
  | code => exact settled_nextInCode (hslash rfl)
  | text q => exact settled_nextInText q c
  | escaped q => rw [next]; split <;> rfl
  | returned q =>
    rw [next]
    split
    · rfl
    · exact settled_nextInText q c
  | slash | line | block | star => cases hm

/-- A slash is read, and a block comment, as by the rules. -/
theorem sight_eq_next_of_spills (m : Mode) (hspills : m.spills = false) (hline : m ≠ .line)
    (hreturn : m.pastReturn = next m '\r') (c : Char) : sight m c = next m c := by
  unfold sight
  rw [if_neg (by simp [hspills])]
  split
  · rename_i hc
    rw [hc, hreturn]
  · exact if_neg fun h => hline h.2

theorem sight_slash {c : Char} (hslash : c ≠ '/') (hstar : c ≠ '*') :
    sight .slash c = nextInCode c := by
  rw [sight_eq_next_of_spills .slash rfl nofun rfl, next, if_neg hslash, if_neg hstar]

theorem sight_block (c : Char) : sight .block c = if c = '*' then .star else .block :=
  sight_eq_next_of_spills .block rfl nofun rfl c

theorem sight_star (c : Char) :
    sight .star c = if c = '/' then .code else if c = '*' then .star else .block :=
  sight_eq_next_of_spills .star rfl nofun rfl c

theorem keeps_of_settled {m : Mode} {c : Char} {rest : List Char} (hc : c ≠ '\n')
    (hm : m.settled = true) (hslash : m = .code → c ≠ '/') (hrest : rest.head? ≠ some '\n') :
    Keeps m c rest := by
  have hstar : m ≠ .star := by
    rintro rfl
    cases hm
  have hpending : m.pending (some c) = m.ahead := by
    cases m <;> first | rfl | cases hm
  exact (reads_sight hc hm).keeps rfl hc hstar hpending (settled_sight hm hslash) hrest

theorem keeps_slash {rest : List Char} (hrest : rest.head? ≠ some '\n') : Keeps .code '/' rest := by
  refine ⟨[], rfl, ?_⟩
  rw [Scanner.shown_of_ne _ _ (by decide) hrest]
  change (if _ then _ else _) = if inComment sight .code '/' rest.head? = true then [] else ['/']
  have hhides : inComment sight .code '/' rest.head? = true ↔
      rest.head? = some '/' ∨ rest.head? = some '*' := by
    simp [inComment, show sight .code '/' = .slash from rfl, Mode.inComment]
  simp only [hhides]

theorem keeps_after_slash {c : Char} {rest : List Char} (hc : c ≠ '\n') (hslash : c ≠ '/')
    (hrest : rest.head? ≠ some '\n') : Keeps .slash c rest := by
  by_cases hstar : c = '*'
  · subst hstar
    exact keeps_of_hides hc hrest rfl (scriptCode_block rest) ⟨rfl, rfl⟩
  · exact (reads_after_slash hslash hstar).keeps (sight_slash hslash hstar) hc nofun
      (if_neg (by simp [hslash, hstar])) (settled_nextInCode hslash) hrest

theorem keeps_in_block {c : Char} {rest : List Char} (hc : c ≠ '\n')
    (hrest : rest.head? ≠ some '\n') : Keeps .block c rest := by
  have hnext := sight_block c
  have hhides : guardScanner.hides .block c rest.head? = true := by
    change inComment sight .block c _ = true
    rw [inComment, hnext]
    split <;> rfl
  by_cases hstar : c = '*'
  · subst hstar
    exact keeps_of_hides hc hrest hhides rfl ⟨rfl, rfl⟩
  · rw [if_neg hstar] at hnext
    refine keeps_of_hides hc hrest hhides ?_ ⟨rfl, by rw [hnext]; rfl⟩
    rw [hnext]
    exact scriptCode_inBlock rest hstar

theorem keeps_after_star {c : Char} {rest : List Char} (hc : c ≠ '\n')
    (hrest : rest.head? ≠ some '\n') : Keeps .star c rest := by
  have hnext := sight_star c
  have hhides : guardScanner.hides .star c rest.head? = true := by
    change inComment sight .star c _ = true
    by_cases hslash : c = '/'
    · subst hslash
      rfl
    · rw [inComment, hnext, if_neg hslash]
      split <;> rfl
  by_cases hslash : c = '/'
  · subst hslash
    exact keeps_of_hides hc hrest hhides (scriptCode_blockEnd rest) ⟨rfl, rfl⟩
  rw [if_neg hslash] at hnext
  by_cases hstar : c = '*'
  · subst hstar
    exact keeps_of_hides hc hrest hhides (scriptCode_star rest hslash) ⟨rfl, rfl⟩
  · rw [if_neg hstar] at hnext
    refine keeps_of_hides hc hrest hhides ?_ ⟨rfl, by rw [hnext]; rfl⟩
    rw [hnext]
    exact (scriptCode_star rest hslash).trans (scriptCode_inBlock rest hstar)

/-- What the guard makes of a character of a line. -/
theorem keeps {m : Mode} {c : Char} {rest : List Char} (hc : c ≠ '\n') (hm : m ≠ .line)
    (hsight : sight m c ≠ .line) (hrest : rest.head? ≠ some '\n') : Keeps m c rest := by
  cases m with
  | code =>
    by_cases hslash : c = '/'
    · exact hslash ▸ keeps_slash hrest
    · exact keeps_of_settled hc rfl (fun _ => hslash) hrest
  | text q | escaped q | returned q => exact keeps_of_settled hc rfl nofun hrest
  | slash => exact keeps_after_slash hc (fun hslash => hsight (hslash ▸ rfl)) hrest
  | line => exact absurd rfl hm
  | block => exact keeps_in_block hc hrest
  | star => exact keeps_after_star hc hrest

/-- In a comment to the end of the line the rest of it is left out. -/
theorem outside_comment {line : List Char} (h : '\n' ∉ line) :
    guardScanner.outside .line line = [] ∧ guardScanner.scan .line line = .line := by
  have hnext : ∀ {c}, c ≠ '\n' → sight .line c = .line := by
    intro c hc
    unfold sight
    rw [if_neg fun h => hc h.1]
    split
    · rfl
    split
    · rfl
    · rename_i hreturn hseparator
      have hend := isLineEnd_eq_false.mpr ⟨hc, hreturn⟩
      have hnot : isSeparator c = false := by simpa using hseparator
      exact if_neg (by simp [hend, hnot])
  refine guardScanner.outside_of_hides hnext (fun {c} hc following => ?_) h
  change inComment sight .line c following = true
  rw [inComment, hnext hc]
  rfl

/-- At the end of a line the guard keeps a block comment open. -/
theorem read_end {m : Mode} (hm : m ≠ .line) :
    m.read [] = (m.pending none, (sight m '\n').inBlock) := by
  cases m with
  | code | block => exact scriptCode_nil _ _
  | slash =>
    have hread : Mode.slash.read [] = keeping ['/'] (scriptCode false none []) :=
      scriptCode_none_cons _ _
    rw [hread, scriptCode_nil]
    rfl
  | line => exact absurd rfl hm
  | star =>
    have hread : Mode.star.read [] = scriptCode true none [] := scriptCode_block_cons _ _ _
    rw [hread, scriptCode_nil]
    rfl
  | text q | returned q => cases q <;> exact scriptCode_nil _ _
  | escaped q => cases q <;> exact scriptCode_some_cons _ _ _

/-- The guard takes only two slashes for the beginning of a comment to the end of the line. -/
theorem of_sight_eq_line {m : Mode} {c : Char} (hm : m ≠ .line) (h : sight m c = .line) :
    m = .slash ∧ c = '/' := by
  unfold sight at h
  split at h
  · cases h
  split at h
  · cases m <;> first | exact absurd rfl hm | cases h
  split at h
  · rename_i hline
    exact absurd hline.2 hm
  · exact next_eq_line hm h

/-- What the guard makes of the rest of a line. -/
theorem read_eq {m : Mode} (hm : m ≠ .line) {rest : List Char} (h : '\n' ∉ rest) :
    m.read rest = (m.pending rest.head? ++ guardScanner.outside m rest,
      (sight (guardScanner.scan m rest) '\n').inBlock) := by
  induction rest generalizing m with
  | nil => rw [read_end hm, Scanner.outside_nil, List.append_nil]; rfl
  | cons c rest ih =>
    simp only [List.mem_cons, not_or] at h
    have hc : c ≠ '\n' := Ne.symm h.1
    have hhead : rest.head? ≠ some '\n' := fun hhead => h.2 (List.mem_of_mem_head? hhead)
    rw [Scanner.outside_cons, Reading.scan_cons]
    by_cases hline : sight m c = .line
    · obtain ⟨rfl, rfl⟩ := of_sight_eq_line hm hline
      obtain ⟨hnone, hscan⟩ := outside_comment h.2
      have hnext : guardScanner.next .slash '/' = .line := rfl
      rw [hnext, hnone, hscan, Scanner.shown_of_ne _ _ hc hhead]
      exact scriptCode_line rest
    · obtain ⟨kept, hread, hkept⟩ := keeps hc hm hline hhead
      rw [hread, ih hline h.2]
      refine Prod.ext ?_ rfl
      change kept ++ ((sight m c).pending _ ++ guardScanner.outside _ rest) = _
      rw [← List.append_assoc, hkept, List.append_assoc]
      rfl

theorem runs : guardScanner.Runs scriptLine Mode.inBlock Mode.startsLine where
  line {m line} hm hline := by
    have hread := read_eq (m.ne_line_of_startsLine hm) hline
    rw [m.read_of_startsLine hm] at hread
    rw [scriptLine, hread]
    cases m <;> first | rfl | cases hm
  starts_next m := by
    change (sight m '\n').startsLine = true
    unfold sight
    split
    · rfl
    · rename_i hspills
      exact m.startsLine_next (by simpa using hspills)
  return_feed := sight_return_feed

theorem withoutComments_eq (source : List Char) :
    withoutComments .javaScript source = guardScanner.uncommented .code source :=
  runs.unlines_codeLines (m := .code) rfl source

/-! ### The guard and the lexical rules -/

/-- A string or a template that goes on in the next line is lost. -/
def Mode.isLost : Mode → Bool
  | .text _ => true
  | _ => false

/-- A carriage return by itself ends a comment or a string that is no template, or a separator ends
a comment. -/
def partsAt (m : Mode) (c : Char) : Bool :=
  (c == '\r' && match m with
    | .line | .text .single | .text .double | .returned .single | .returned .double => true
    | _ => false) || isSeparator c && m == .line

theorem sight_eq_of_parts {m : Mode} {c : Char} (hc : c ≠ '\n') (h : partsAt m c = false) :
    sight m c = next m c := by
  obtain ⟨hreturn, hseparator⟩ := Bool.or_eq_false_iff.mp h
  by_cases hc' : c = '\r'
  · subst hc'
    cases m with
    | code | slash | block | star | escaped q => rfl
    | line => cases hreturn
    | text q | returned q => cases q <;> first | rfl | cases hreturn
  · refine sight_eq_next (isLineEnd_eq_false.mpr ⟨hc, hc'⟩) fun hsep hline => ?_
    simp [hsep, hline] at hseparator

theorem sight_feed_eq {m : Mode} (h : (next m '\n').isLost = false) :
    sight m '\n' = next m '\n' := by
  cases m with
  | text q => cases q <;> first | rfl | cases h
  | escaped q | returned q => cases h
  | code | slash | line | block | star => rfl

theorem sight_return_feed_eq {m : Mode} (h : (next (next m '\r') '\n').isLost = false) :
    sight m '\n' = next (next m '\r') '\n' := by
  cases m with
  | text q | returned q => cases q <;> first | rfl | cases h
  | escaped q => cases h
  | code | slash | line | block | star => rfl

theorem departs : Scanner.Departs guardScanner lexer Mode.isLost partsAt where
  next_eq := sight_eq_of_parts
  hides_eq {m c} hc h := by
    funext following
    change inComment sight m c following = inComment next m c following
    rw [inComment, inComment, sight_eq_of_parts hc h]
  feed_eq := sight_feed_eq
  return_feed_eq {m} h := (sight_return_feed m).trans (sight_return_feed_eq h)

/-- Only a template goes on over the end of a line, or an escape takes a string over it. -/
theorem exists_of_isLost_feed {m : Mode} (h : (next m '\n').isLost = true) :
    ∃ q, m = .text .back ∨ m = .escaped q ∨ m = .returned q := by
  cases m with
  | text q =>
    cases q with
    | back => exact ⟨.back, .inl rfl⟩
    | single | double => cases h
  | escaped q => exact ⟨q, .inr (.inl rfl)⟩
  | returned q => exact ⟨q, .inr (.inr rfl)⟩
  | code | slash | line | block | star => cases h

theorem exists_of_isLost_return_feed {m : Mode} (h : (next (next m '\r') '\n').isLost = true) :
    ∃ q, m = .text .back ∨ m = .escaped q ∨ m = .returned .back := by
  cases m with
  | text q | returned q =>
    cases q with
    | back => exact ⟨.back, by simp⟩
    | single | double => cases h
  | escaped q => exact ⟨q, .inr (.inl rfl)⟩
  | code | slash | line | block | star => cases h

/-- After a parting the guard takes for a comment what is none. -/
theorem exists_hidden {m : Mode} {e : List Char} (h : lexer.Parting Mode.isLost partsAt m e) :
    ∃ t, t.head? ≠ some '\n' ∧ lexer.clear Mode.isLost partsAt (lexer.scan m e) t = true ∧
      (guardScanner.outside m (e ++ t)).length < (lexer.outside m (e ++ t)).length := by
  cases h with
  | feed h =>
    obtain ⟨q, rfl | rfl | rfl⟩ := exists_of_isLost_feed h <;>
      exact ⟨['/', '/'], by cases q <;> decide⟩
  | return_feed h =>
    obtain ⟨q, rfl | rfl | rfl⟩ := exists_of_isLost_return_feed h <;>
      exact ⟨['/', '/'], by cases q <;> decide⟩
  | @other c hc h =>
    obtain ⟨hreturn, h⟩ | ⟨hseparator, rfl⟩ :
        (c = '\r' ∧ _) ∨ (isSeparator c = true ∧ m = .line) := by simpa [partsAt] using h
    · subst hreturn
      cases m with
      | line => exact ⟨['x'], by decide⟩
      | text q | returned q =>
        refine ⟨[q.char, '/', '/'], ?_⟩
        cases q with
        | single | double => decide
        | back => cases h
      | code | slash | block | star | escaped q => cases h
    · obtain rfl | rfl : c = '\u2028' ∨ c = '\u2029' := by simpa [isSeparator] using hseparator
      all_goals exact ⟨['x'], by decide⟩

/-- The guard leaves of a source what the lexical rules leave of it, if no string or template goes
on over the end of a line, and no carriage return by itself and no separator ends a comment, or a
string that is no template. After the first place where one does, it can leave out code. -/
theorem withoutComments_script (source : List Char) :
    (lexer.clear Mode.isLost partsAt .code source = true →
      withoutComments .javaScript source = lexer.uncommented .code source) ∧
    (lexer.clear Mode.isLost partsAt .code source = false →
      ∃ before e rest after, source = before ++ e ++ rest ∧
        lexer.clear Mode.isLost partsAt .code before = true ∧
        lexer.Parting Mode.isLost partsAt (lexer.scan .code before) e ∧ after.head? ≠ some '\n' ∧
        lexer.clear Mode.isLost partsAt (lexer.scan .code (before ++ e)) after = true ∧
        (withoutComments .javaScript (before ++ e ++ after)).length <
          (lexer.uncommented .code (before ++ e ++ after)).length) := by
  have hplain : ∀ m, partsAt m '/' = false ∧ partsAt m '*' = false := fun m => ⟨rfl, rfl⟩
  simp only [withoutComments_eq]
  exact ⟨departs.uncommented_eq, departs.exists_lt hplain exists_hidden⟩

/-- Comments of both kinds at the ends of lines, slashes in strings and in a template, escapes, and
a carriage return in code and one in a comment over two lines; and what follows a template over two
lines. -/
theorem templates_stripped :
    withoutComments .javaScript
        "a = '/*\\''; // 1\r\nb = \x60//\\\x60\x60;\r/* 2\r//\n */ c = 4 / 2 // 3".toList =
      "a = '/*\\''; \nb = \x60//\\\x60\x60;\r\n c = 4 / 2 \n".toList ∧
    ∃ before e rest after, "a = \x60\n//\x60\n".toList = before ++ e ++ rest ∧
      (withoutComments .javaScript (before ++ e ++ after)).length <
        (lexer.uncommented .code (before ++ e ++ after)).length := by
  refine ⟨?_, ?_⟩
  · rw [(withoutComments_script _).1 (by decide +kernel)]
    decide +kernel
  · obtain ⟨before, e, rest, after, hsource, -, -, -, -, hlt⟩ :=
      (withoutComments_script "a = \x60\n//\x60\n".toList).2 (by decide +kernel)
    exact ⟨before, e, rest, after, hsource, hlt⟩

/-- A template over two lines and a string over an escaped end of a line hide what follows them, and
a comment hides what follows the carriage return or the separator that ends it. -/
theorem hidden_by_templates :
    withoutComments .javaScript "x = \x60\n//\x60; require('fs');\n".toList =
      "x = \x60\n\n".toList ∧
    lexer.uncommented .code "x = \x60\n//\x60; require('fs');\n".toList =
      "x = \x60\n//\x60; require('fs');\n".toList ∧
    withoutComments .javaScript "x = 'a\\\n//'; require('fs');\n".toList = "x = 'a\\\n\n".toList ∧
    lexer.uncommented .code "x = 'a\\\n//'; require('fs');\n".toList =
      "x = 'a\\\n//'; require('fs');\n".toList ∧
    withoutComments .javaScript "// a\rrequire('fs');\n".toList = "\n".toList ∧
    lexer.uncommented .code "// a\rrequire('fs');\n".toList = "\rrequire('fs');\n".toList ∧
    withoutComments .javaScript "// a\u2028require('fs');\n".toList = "\n".toList ∧
    lexer.uncommented .code "// a\u2028require('fs');\n".toList = "\u2028require('fs');\n".toList ∧
    ["x = \x60\n//\x60; require('fs');\n", "x = 'a\\\n//'; require('fs');\n",
      "// a\rrequire('fs');\n", "// a\u2028require('fs');\n"].filterMap
        (refusal? {} .javaScript) = [] := by
  decide +kernel

end Flowline.Guard.ScriptText
