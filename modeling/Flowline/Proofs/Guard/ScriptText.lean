import Flowline.Proofs.Guard.Reading

/-!
# Strings and comments of JavaScript

A reading of a whole JavaScript text without regular expressions, character by character, that tells
code from strings and comments: a template goes on over line ends, any other string only over an
escaped one, and a comment after two slashes ends with its line, be it at a line feed, a carriage
return or a separator of lines or paragraphs. As long as no string or template goes on over a line
end, no carriage return stands alone and no comment ends at a separator, the guard agrees with this
reading on where strings and comments are.
-/
namespace Flowline.Guard.ScriptText

open Text

inductive Quote where
  | single
  | double
  | back
deriving DecidableEq

def Quote.char : Quote → Char
  | single => '\''
  | double => '"'
  | back => '\x60'

/-- What has been read so far. -/
inductive Mode where
  | code
  /-- A slash in code: a division, or the beginning of a comment. -/
  | slash
  | line
  | block
  /-- A star in a block comment. -/
  | star
  | text (q : Quote)
  | escaped (q : Quote)
  /-- An escaped carriage return, with which a line feed belongs. -/
  | returned (q : Quote)
deriving DecidableEq

/-- The separators of lines and of paragraphs, which end a comment but no string. -/
def isSeparator (c : Char) : Bool := c == '\u2028' || c == '\u2029'

def nextInCode (c : Char) : Mode :=
  if c = '/' then .slash
  else if c = Quote.single.char then .text .single
  else if c = Quote.double.char then .text .double
  else if c = Quote.back.char then .text .back
  else .code

/-- A string that is no template ends with its line. -/
def nextInText (q : Quote) (c : Char) : Mode :=
  if c = '\\' then .escaped q
  else if c = q.char then .code
  else if isLineEnd c && q != .back then .code
  else .text q

def next : Mode → Char → Mode
  | .code, c => nextInCode c
  | .slash, c => if c = '/' then .line else if c = '*' then .block else nextInCode c
  | .line, c => if isLineEnd c || isSeparator c then .code else .line
  | .block, c => if c = '*' then .star else .block
  | .star, c => if c = '/' then .code else if c = '*' then .star else .block
  | .text q, c => nextInText q c
  | .escaped q, c => if c = '\r' then .returned q else .text q
  | .returned q, c => if c = '\n' then .text q else nextInText q c

/-- A line end would leave a string or a template open. -/
def Mode.spills : Mode → Bool
  | .text .back | .escaped _ | .returned _ => true
  | _ => false

theorem next_return {m : Mode} (h : m.spills = false) : next (next m '\r') '\n' = next m '\n' := by
  cases m with
  | code | slash | line | block | star => rfl
  | text q =>
    cases q with
    | single | double => rfl
    | back => cases h
  | escaped q | returned q => cases h

/-- The guard loses a string or a template that goes on over a line end, and the end of a comment
at a separator. -/
def reading : Reading Mode where
  next := next
  parts m c := isLineEnd c && m.spills || isSeparator c && m == .line
  return_feed m h := by
    have hspills : m.spills = false := by simpa [isLineEnd, isSeparator] using h
    exact ⟨by simp [hspills, isSeparator], next_return hspills⟩

/-! ### The guard in the modes -/

/-- A block comment is open for the guard. -/
def Mode.inBlock : Mode → Bool
  | .block | .star => true
  | _ => false

/-- The quote that the guard waits for. -/
def Mode.quote : Mode → Option Char
  | .text q | .escaped q | .returned q => some q.char
  | .code | .slash | .line | .block | .star => none

/-- What has been read but means nothing to the guard without the character after it. -/
def Mode.ahead : Mode → List Char
  | .slash => ['/']
  | .star => ['*']
  | .escaped _ => ['\\']
  | .code | .line | .block | .text _ | .returned _ => []

def Mode.inComment : Mode → Bool
  | .line | .block | .star => true
  | _ => false

/-- What the guard makes of the rest of a line. -/
def Mode.read (m : Mode) (rest : List Char) : List Char × Bool :=
  scriptCode m.inBlock m.quote (m.ahead ++ rest)

theorem Quote.isScriptQuote_char (q : Quote) : isScriptQuote q.char = true := by cases q <;> rfl
theorem Quote.char_ne_slash (q : Quote) : q.char ≠ '/' := by cases q <;> decide
theorem Quote.char_ne_backslash (q : Quote) : q.char ≠ '\\' := by cases q <;> decide

section scriptCode

variable {q : Quote} {c : Char} (rest : List Char)

theorem scriptCode_nil (block : Bool) (quote : Option Char) :
    scriptCode block quote [] = ([], block) := by
  rw [scriptCode.eq_def]

theorem scriptCode_block_cons (quote : Option Char) (c : Char) :
    scriptCode true quote (c :: rest) =
      match c, rest with
      | '*', '/' :: more => scriptCode false none more
      | _, more => scriptCode true none more := by
  rw [scriptCode.eq_def]
  rfl

theorem scriptCode_some_cons (quote c : Char) :
    scriptCode false (some quote) (c :: rest) =
      if c = '\\' then
        match rest with
        | [] => ([c], false)
        | d :: rest => keeping [c, d] (scriptCode false (some quote) rest)
      else keeping [c] (scriptCode false (if c = quote then none else some quote) rest) := by
  rw [scriptCode.eq_def]
  rfl

theorem scriptCode_none_cons (c : Char) :
    scriptCode false none (c :: rest) =
      match c, rest with
      | '/', '/' :: _ => ([], false)
      | '/', '*' :: rest => scriptCode true none rest
      | _, _ => keeping [c] (scriptCode false (if isScriptQuote c then some c else none) rest) := by
  rw [scriptCode.eq_def]
  rfl

theorem scriptCode_code (hc : c ≠ '/') (hq : isScriptQuote c = false) :
    scriptCode false none (c :: rest) = keeping [c] (scriptCode false none rest) := by
  simp [scriptCode_none_cons, hc, hq]

theorem scriptCode_quote :
    scriptCode false none (q.char :: rest) =
      keeping [q.char] (scriptCode false (some q.char) rest) := by
  simp [scriptCode_none_cons, q.char_ne_slash, q.isScriptQuote_char]

theorem scriptCode_slash (hslash : c ≠ '/') (hstar : c ≠ '*') :
    scriptCode false none ('/' :: c :: rest) =
      keeping ['/'] (scriptCode false none (c :: rest)) := by
  rw [scriptCode_none_cons]
  simp [hslash, hstar, isScriptQuote, isQuote]

theorem scriptCode_line : scriptCode false none ('/' :: '/' :: rest) = ([], false) :=
  scriptCode_none_cons _ _

theorem scriptCode_block :
    scriptCode false none ('/' :: '*' :: rest) = scriptCode true none rest :=
  scriptCode_none_cons _ _

theorem scriptCode_inBlock (hc : c ≠ '*') :
    scriptCode true none (c :: rest) = scriptCode true none rest := by
  simp [scriptCode_block_cons, hc]

theorem scriptCode_star (hc : c ≠ '/') :
    scriptCode true none ('*' :: c :: rest) = scriptCode true none (c :: rest) := by
  rw [scriptCode_block_cons]
  simp [hc]

theorem scriptCode_blockEnd :
    scriptCode true none ('*' :: '/' :: rest) = scriptCode false none rest :=
  scriptCode_block_cons _ _ _

theorem scriptCode_escaped :
    scriptCode false (some q.char) ('\\' :: c :: rest) =
      keeping ['\\', c] (scriptCode false (some q.char) rest) :=
  scriptCode_some_cons _ _ _

theorem scriptCode_text (hc : c ≠ '\\') (hq : c ≠ q.char) :
    scriptCode false (some q.char) (c :: rest) =
      keeping [c] (scriptCode false (some q.char) rest) := by
  rw [scriptCode_some_cons, if_neg hc, if_neg hq]

theorem scriptCode_closed :
    scriptCode false (some q.char) (q.char :: rest) =
      keeping [q.char] (scriptCode false none rest) := by
  rw [scriptCode_some_cons, if_neg q.char_ne_backslash, if_pos rfl]

end scriptCode

/-- The guard goes on from one mode to another, and has kept something of the text between them. -/
def Follows (m : Mode) (s : List Char) (m' : Mode) : Prop :=
  ∃ kept, ∀ rest, m.read (s ++ rest) = keeping kept (m'.read rest)

/-- The guard has kept all of the text that is not still ahead of it. -/
def Reads (m : Mode) (s : List Char) (m' : Mode) : Prop :=
  ∃ kept, kept ++ m'.ahead = m.ahead ++ s ∧ ∀ rest, m.read (s ++ rest) = keeping kept (m'.read rest)

theorem Follows.refl (m : Mode) : Follows m [] m := ⟨[], fun _ => rfl⟩

theorem Follows.trans {m m' m'' : Mode} {s t : List Char} (h : Follows m s m')
    (h' : Follows m' t m'') : Follows m (s ++ t) m'' := by
  obtain ⟨kept, hread⟩ := h
  obtain ⟨kept', hread'⟩ := h'
  exact ⟨kept ++ kept', fun rest => by rw [List.append_assoc, hread, hread', keeping_keeping]⟩

/-- Nothing is kept, or known to be code yet. -/
theorem Follows.skip {m m' : Mode} {s : List Char} (h : ∀ rest, m.read (s ++ rest) = m'.read rest) :
    Follows m s m' :=
  ⟨[], h⟩

namespace Reads

variable {m m' m'' : Mode} {s t : List Char}

theorem follows (h : Reads m s m') : Follows m s m' := h.imp fun _ hread => hread.2

theorem refl (m : Mode) : Reads m [] m := ⟨[], (List.append_nil _).symm, fun _ => rfl⟩

theorem trans (h : Reads m s m') (h' : Reads m' t m'') : Reads m (s ++ t) m'' := by
  obtain ⟨kept, hkept, hread⟩ := h
  obtain ⟨kept', hkept', hread'⟩ := h'
  refine ⟨kept ++ kept', ?_, fun rest => by rw [List.append_assoc, hread, hread', keeping_keeping]⟩
  rw [List.append_assoc, hkept', ← List.append_assoc, hkept, List.append_assoc]

theorem of_ahead (hahead : m'.ahead = m.ahead ++ s) (hblock : m'.inBlock = m.inBlock)
    (hquote : m'.quote = m.quote) : Reads m s m' :=
  ⟨[], hahead, fun rest => by
    rw [Mode.read, Mode.read, hblock, hquote, hahead, List.append_assoc]
    rfl⟩

theorem of_keeping (hahead : m'.ahead = [])
    (h : ∀ rest, m.read (s ++ rest) = keeping (m.ahead ++ s) (m'.read rest)) : Reads m s m' :=
  ⟨m.ahead ++ s, by rw [hahead, List.append_nil], h⟩

end Reads

theorem reads_in_code (c : Char) : Reads .code [c] (nextInCode c) := by
  unfold nextInCode
  split
  · rename_i hc
    exact hc ▸ .of_ahead rfl rfl rfl
  rename_i hslash
  split
  · rename_i hc
    exact hc ▸ .of_keeping rfl scriptCode_quote
  rename_i hsingle
  split
  · rename_i hc
    exact hc ▸ .of_keeping rfl scriptCode_quote
  rename_i hdouble
  split
  · rename_i hc
    exact hc ▸ .of_keeping rfl scriptCode_quote
  rename_i hback
  have hquote : isScriptQuote c = false := by
    simpa [isScriptQuote, isQuote] using ⟨⟨hsingle, hdouble⟩, hback⟩
  exact .of_keeping rfl fun rest => scriptCode_code rest hslash hquote

theorem reads_after_slash {c : Char} (hslash : c ≠ '/') (hstar : c ≠ '*') :
    Reads .slash [c] (nextInCode c) := by
  obtain ⟨kept, hkept, hread⟩ := reads_in_code c
  refine ⟨'/' :: kept, congrArg (List.cons '/') hkept, fun rest => ?_⟩
  have hslash : Mode.slash.read ([c] ++ rest) = keeping ['/'] (Mode.code.read ([c] ++ rest)) :=
    scriptCode_slash rest hslash hstar
  rw [hslash, hread, keeping_keeping]
  rfl

theorem reads_in_text (q : Quote) {c : Char} (hc : isLineEnd c = false) :
    Reads (.text q) [c] (nextInText q c) := by
  unfold nextInText
  rw [hc, Bool.false_and, if_neg Bool.false_ne_true]
  split
  · rename_i hbackslash
    exact hbackslash ▸ .of_ahead rfl rfl rfl
  rename_i hbackslash
  split
  · rename_i hquote
    exact hquote ▸ .of_keeping rfl scriptCode_closed
  · rename_i hquote
    exact .of_keeping rfl fun rest => scriptCode_text rest hbackslash hquote

/-- Code or a string, and not what may be the beginning of a comment. -/
def Mode.settled : Mode → Bool
  | .code | .text _ | .escaped _ | .returned _ => true
  | .slash | .line | .block | .star => false

theorem reads_of_settled {m : Mode} {c : Char} (hc : isLineEnd c = false)
    (hm : m.settled = true) : Reads m [c] (next m c) := by
  have hbreak : c ≠ '\n' ∧ c ≠ '\r' := by simpa [isLineEnd] using hc
  cases m with
  | code => exact reads_in_code c
  | text q => exact reads_in_text q hc
  | escaped q =>
    rw [next, if_neg hbreak.2]
    exact .of_keeping rfl scriptCode_escaped
  | returned q =>
    rw [next, if_neg hbreak.1]
    exact reads_in_text q hc
  | slash | line | block | star => cases hm

/-- One character that has no part in a comment and is no line end. -/
theorem reads_next {m : Mode} {c : Char} (hc : isLineEnd c = false) (hm : m.inComment = false)
    (hnext : (next m c).inComment = false) : Reads m [c] (next m c) := by
  cases m with
  | code | text q | escaped q | returned q => exact reads_of_settled hc rfl
  | slash =>
    have hslash : c ≠ '/' := by
      rintro rfl
      cases hnext
    have hstar : c ≠ '*' := by
      rintro rfl
      cases hnext
    rw [next, if_neg hslash, if_neg hstar]
    exact reads_after_slash hslash hstar
  | line | block | star => cases hm

/-- One character, but for a line end and for the second slash of a comment. -/
theorem follows_next {m : Mode} {c : Char} (hc : isLineEnd c = false) (hm : m ≠ .line)
    (hnext : next m c ≠ .line) : Follows m [c] (next m c) := by
  cases m with
  | line => exact absurd rfl hm
  | slash =>
    by_cases hslash : c = '/'
    · subst hslash
      exact absurd rfl hnext
    · by_cases hstar : c = '*'
      · subst hstar
        exact .skip scriptCode_block
      · rw [next, if_neg hslash, if_neg hstar]
        exact (reads_after_slash hslash hstar).follows
  | block =>
    by_cases hstar : c = '*'
    · subst hstar
      exact .skip fun _ => rfl
    · rw [next, if_neg hstar]
      exact .skip fun rest => scriptCode_inBlock rest hstar
  | star =>
    by_cases hslash : c = '/'
    · subst hslash
      exact .skip scriptCode_blockEnd
    · by_cases hstar : c = '*'
      · subst hstar
        exact .skip fun rest => scriptCode_star rest hslash
      · rw [next, if_neg hslash, if_neg hstar]
        exact .skip fun rest => (scriptCode_star rest hslash).trans (scriptCode_inBlock rest hstar)
  | code | text q | escaped q | returned q => exact (reads_of_settled hc rfl).follows

theorem nextInText_ne_line (q : Quote) (c : Char) : nextInText q c ≠ .line := by
  unfold nextInText
  grind

theorem nextInCode_ne_line (c : Char) : nextInCode c ≠ .line := by
  unfold nextInCode
  grind

/-- A comment to the end of the line begins with two slashes. -/
theorem next_eq_line {m : Mode} {c : Char} (hm : m ≠ .line) (h : next m c = .line) :
    m = .slash ∧ c = '/' := by
  cases m with
  | code => exact absurd h (nextInCode_ne_line c)
  | slash =>
    by_cases hslash : c = '/'
    · exact ⟨rfl, hslash⟩
    · rw [next, if_neg hslash] at h
      split at h
      · cases h
      · exact absurd h (nextInCode_ne_line c)
  | line => exact absurd rfl hm
  | block => rw [next] at h; split at h <;> cases h
  | star =>
    rw [next] at h
    split at h
    · cases h
    · split at h <;> cases h
  | text q => exact absurd h (nextInText_ne_line q c)
  | escaped q => rw [next] at h; split at h <;> cases h
  | returned q =>
    rw [next] at h
    split at h
    · cases h
    · exact absurd h (nextInText_ne_line q c)

/-- There the guard leaves out the rest of the line. -/
theorem read_line {m : Mode} {c : Char} (hm : m ≠ .line) (h : next m c = .line) (rest : List Char) :
    m.read (c :: rest) = ([], false) := by
  obtain ⟨rfl, rfl⟩ := next_eq_line hm h
  exact scriptCode_line rest

/-- Within a line of an unbroken text, such a comment goes on to its end. -/
theorem ne_line_of_scan {m : Mode} {s : List Char} (hs : ∀ c ∈ s, isLineEnd c = false)
    (hunbroken : reading.unbroken m s = true) (h : reading.scan m s ≠ .line) : m ≠ .line := by
  rintro rfl
  induction s with
  | nil => exact h rfl
  | cons c s ih =>
    obtain ⟨hc, hs⟩ := List.forall_mem_cons.mp hs
    obtain ⟨hparts, hrest⟩ := Reading.unbroken_cons hunbroken
    have hseparator : isSeparator c = false := by simpa [reading, hc] using hparts
    have hnext : reading.next .line c = .line := if_neg (by simp [hc, hseparator])
    rw [hnext] at hrest
    rw [Reading.scan_cons, hnext] at h
    exact ih hs hrest h

/-- Within a line, and not in a comment to its end, the guard goes with the reading. -/
theorem follows_scan {m : Mode} {s : List Char} (hs : ∀ c ∈ s, isLineEnd c = false)
    (hunbroken : reading.unbroken m s = true) (h : reading.scan m s ≠ .line) :
    Follows m s (reading.scan m s) := by
  induction s generalizing m with
  | nil => exact .refl m
  | cons c s ih =>
    have hm := ne_line_of_scan hs hunbroken h
    obtain ⟨hc, hs⟩ := List.forall_mem_cons.mp hs
    have hrest := (Reading.unbroken_cons hunbroken).2
    exact (follows_next hc hm (ne_line_of_scan hs hrest h)).trans (ih hs hrest h)

/-! ### Lines -/

/-- Where the guard takes a line up: in code or in a block comment. -/
def Mode.startsLine : Mode → Bool
  | .code | .block => true
  | _ => false

section startsLine

variable {m : Mode} (hm : m.startsLine = true)

include hm

theorem Mode.read_of_startsLine (line : List Char) :
    m.read line = scriptCode m.inBlock none line := by
  cases m <;> first | rfl | cases hm

theorem Mode.ne_line_of_startsLine : m ≠ .line := by
  rintro rfl
  cases hm

end startsLine

theorem Mode.startsLine_next {m : Mode} (h : m.spills = false) :
    (next m '\n').startsLine = true := by
  cases m with
  | code | slash | line | block | star => rfl
  | text q =>
    cases q with
    | single | double => rfl
    | back => cases h
  | escaped q | returned q => cases h

/-- At the end of a line the guard remembers only a block comment. -/
theorem read_nil {m : Mode} (h : m.spills = false) : (m.read []).2 = (next m '\n').inBlock := by
  cases m with
  | code | line | block => exact congrArg Prod.snd (scriptCode_nil _ _)
  | slash =>
    have hread : Mode.slash.read [] = keeping ['/'] (scriptCode false none []) :=
      scriptCode_none_cons _ _
    rw [hread, scriptCode_nil]
    rfl
  | star =>
    have hread : Mode.star.read [] = scriptCode true none [] := scriptCode_block_cons _ _ _
    rw [hread, scriptCode_nil]
    rfl
  | text q =>
    cases q with
    | single | double => exact congrArg Prod.snd (scriptCode_nil _ _)
    | back => cases h
  | escaped q | returned q => cases h

/-- The guard on one line; no string goes on in the next. -/
def scriptLine (block : Bool) (line : List Char) : List Char × Bool := scriptCode block none line

theorem scriptLine_state {m : Mode} (hm : m.startsLine = true) {line : List Char}
    (hline : ∀ c ∈ line, isLineEnd c = false) (hunbroken : reading.unbroken m line = true)
    (hspills : (reading.scan m line).spills = false) :
    (scriptLine m.inBlock line).2 = (next (reading.scan m line) '\n').inBlock := by
  rw [scriptLine, ← m.read_of_startsLine hm]
  by_cases hcomment : reading.scan m line = .line
  · obtain ⟨a, c, b, rfl, ha, hc⟩ := reading.exists_first (m.ne_line_of_startsLine hm) hcomment
    have hends : ∀ d ∈ a, isLineEnd d = false := fun d hd => hline d (List.mem_append_left _ hd)
    obtain ⟨kept, hread⟩ := follows_scan hends (Reading.unbroken_left hends hunbroken) ha
    rw [hread, hcomment, read_line ha hc]
    rfl
  · obtain ⟨kept, hread⟩ := follows_scan hline hunbroken hcomment
    have hend := hread []
    rw [List.append_nil] at hend
    rw [hend, ← read_nil hspills]
    rfl

theorem tracks : reading.Tracks scriptLine Mode.inBlock Mode.startsLine where
  line_state hm hline hunbroken hparts :=
    scriptLine_state hm hline hunbroken (by simpa [reading, isLineEnd, isSeparator] using hparts)
  starts_next hparts :=
    Mode.startsLine_next (by simpa [reading, isLineEnd, isSeparator] using hparts)

theorem scriptCode_subset (block : Bool) (quote : Option Char) (s : List Char) :
    (scriptCode block quote s).1 ⊆ s := by
  induction hn : s.length using Nat.strongRecOn generalizing block quote s with
  | ind n ih =>
    subst hn
    cases s with
    | nil => simp [scriptCode_nil]
    | cons c rest =>
      have hrest : ∀ block quote, (scriptCode block quote rest).1 ⊆ c :: rest := fun block quote =>
        List.Subset.trans (ih rest.length (by simp) block quote rest rfl)
          (List.subset_cons_self c rest)
      have hmore : ∀ d more block quote, rest = d :: more →
          (scriptCode block quote more).1 ⊆ c :: rest := by
        rintro d more block quote rfl
        have hlen : more.length < (c :: d :: more).length := by
          rw [List.length_cons, List.length_cons]
          omega
        exact List.Subset.trans (ih more.length hlen block quote more rfl) (by simp)
      have hkeep : ∀ quote, (keeping [c] (scriptCode false quote rest)).1 ⊆ c :: rest :=
        fun quote => List.cons_subset.mpr ⟨List.mem_cons_self, hrest false quote⟩
      match block, quote with
      | true, quote =>
        rw [scriptCode_block_cons]
        split
        · exact hmore _ _ false none rfl
        · exact hrest true none
      | false, none =>
        rw [scriptCode_none_cons]
        split
        · exact List.nil_subset _
        · exact hmore _ _ true none rfl
        · exact hkeep _
      | false, some quote =>
        rw [scriptCode_some_cons]
        split
        · split
          · exact List.cons_subset.mpr ⟨List.mem_cons_self, List.nil_subset _⟩
          · exact List.cons_subset.mpr ⟨List.mem_cons_self,
              List.cons_subset.mpr ⟨by simp, hmore _ _ false _ rfl⟩⟩
        · exact hkeep _

theorem codeLines_no_feed (source : List Char) :
    ∀ code ∈ codeLines scriptLine false (lineChars source), '\n' ∉ code :=
  Guard.codeLines_no_feed (fun block line => scriptCode_subset block none line)
    fun _ => not_mem_of_mem_lineChars

/-! ### Places in a source -/

/-- Text outside of comments, met by no line end. -/
structure Passes (m : Mode) (s : List Char) (m' : Mode) : Prop where
  scan : reading.scan m s = m'
  unbroken : reading.unbroken m s = true
  reads : Reads m s m'
  no_end : ∀ c ∈ s, isLineEnd c = false

namespace Passes

variable {m m' m'' : Mode} {s t : List Char}

theorem trans (h : Passes m s m') (h' : Passes m' t m'') : Passes m (s ++ t) m'' where
  scan := by rw [Reading.scan_append, h.scan, h'.scan]
  unbroken := Reading.unbroken_concat h.unbroken (h.scan ▸ h'.unbroken)
  reads := h.reads.trans h'.reads
  no_end c hc := (List.mem_append.mp hc).elim (h.no_end c) (h'.no_end c)

theorem refl (m : Mode) : Passes m [] m where
  scan := rfl
  unbroken := rfl
  reads := .refl m
  no_end := List.forall_mem_nil _

theorem next {c : Char} (hc : isLineEnd c = false) (hm : m.inComment = false)
    (hnext : (next m c).inComment = false) : Passes m [c] (next m c) where
  scan := rfl
  unbroken := by
    have hreturn : (c != '\r') = true := by simpa using (isLineEnd_eq_false.mp hc).2
    have hline : (m == .line) = false := by
      cases m <;> first | rfl | cases hm
    rw [Reading.unbroken, hreturn]
    simp [reading, hc, hline, Reading.unbroken]
  reads := reads_next hc hm hnext
  no_end d hd := List.mem_singleton.mp hd ▸ hc

/-- Characters that change nothing. -/
theorem all (hm : m.inComment = false)
    (h : ∀ c ∈ s, isLineEnd c = false ∧ ScriptText.next m c = m) : Passes m s m := by
  induction s with
  | nil => exact refl m
  | cons c s ih =>
    obtain ⟨⟨hc, hnext⟩, hs⟩ := List.forall_mem_cons.mp h
    have hfirst := next hc hm (hnext.symm ▸ hm)
    rw [hnext] at hfirst
    exact hfirst.trans (ih hs)

end Passes

/-- Where a new token can begin: in code, after no character of a word and not directly after a
comment. -/
structure BeginsToken (before : List Char) : Prop where
  unbroken : reading.unbroken .code before = true
  code : reading.scan .code before = .code ∨ reading.scan .code before = .slash
  edge : ∀ c ∈ before.getLast?, isWord c = false
  apart : reading.scan .code before.dropLast ≠ .star

namespace BeginsToken

variable {before init : List Char} {c : Char} {ls : List (List Char)} {line s : List Char}

theorem inComment (h : BeginsToken before) : (reading.scan .code before).inComment = false := by
  obtain hcode | hslash := h.code
  · exact congrArg Mode.inComment hcode
  · exact congrArg Mode.inComment hslash

/-- Before the character before a token there is no comment: none to the end of the line, since
there is no line end, and no block comment, since the token is apart from it. -/
theorem inComment_init (h : BeginsToken (init ++ [c])) (hc : isLineEnd c = false) :
    (reading.scan .code init).inComment = false := by
  have hnext := h.inComment
  have hunbroken := Reading.unbroken_append h.unbroken
  have hapart := h.apart
  rw [List.dropLast_concat] at hapart
  rw [Reading.scan_append] at hnext
  cases hm : reading.scan .code init with
  | line =>
    have hline : reading.scan (reading.scan .code init) [c] ≠ .line := by
      intro hline
      rw [hline] at hnext
      cases hnext
    exact absurd hm (ne_line_of_scan (fun d hd => List.mem_singleton.mp hd ▸ hc) hunbroken hline)
  | star => exact absurd hm hapart
  | block =>
    rw [hm, Reading.scan_cons, Reading.scan_nil] at hnext
    change (if c = '*' then Mode.star else Mode.block).inComment = false at hnext
    split at hnext <;> cases hnext
  | code | slash | text q | escaped q | returned q => rfl

/-- The character before a token is code, and is kept. -/
theorem reads_last (h : BeginsToken (init ++ [c])) (hc : isLineEnd c = false) :
    Reads (reading.scan .code init) [c] (reading.scan .code (init ++ [c])) := by
  have hnext := h.inComment
  rw [Reading.scan_append, Reading.scan_cons, Reading.scan_nil] at hnext ⊢
  exact reads_next hc (h.inComment_init hc) hnext

/-- At the beginning of a line no slash is left open. -/
theorem code_of_startsLine (h : BeginsToken before)
    (hstart : (reading.scan .code before).startsLine = true) :
    reading.scan .code before = .code := by
  obtain hcode | hslash := h.code
  · exact hcode
  · rw [hslash] at hstart
    cases hstart

/-- What the guard keeps of a line up to a token: an end that is not of a word, then the token. -/
theorem read_line (hls : ∀ l ∈ ls, '\n' ∉ l) (hline : '\n' ∉ line)
    (h : BeginsToken (unlines ls ++ line))
    (hs : Passes (reading.scan .code (unlines ls ++ line)) s .code) :
    ∃ x, (∀ c ∈ x.getLast?, isWord c = false) ∧ ∀ t,
      (scriptLine (reading.scan .code (unlines ls)).inBlock (line ++ s ++ t)).1 =
        x ++ s ++ (scriptCode false none t).1 := by
  obtain ⟨-, hstart⟩ := tracks.stateAfter_eq hls rfl h.unbroken
  obtain ⟨kept, hkept, hread⟩ := hs.reads
  rw [Mode.ahead, List.append_nil] at hkept
  rcases List.eq_nil_or_concat line with rfl | ⟨init, c, rfl⟩
  · rw [List.append_nil] at h hkept hread
    rw [h.code_of_startsLine hstart] at hkept hread ⊢
    refine ⟨[], fun d hd => (nomatch hd), fun t => ?_⟩
    rw [hkept] at hread
    exact congrArg Prod.fst (hread t)
  · rw [List.concat_eq_append] at *
    have hunbroken := Reading.unbroken_append h.unbroken
    have hends := Reading.unbroken_no_end hline hunbroken
    have hinit : ∀ d ∈ init, isLineEnd d = false := fun d hd => hends d (List.mem_append_left _ hd)
    have hc : isLineEnd c = false := hends c (by simp)
    rw [← List.append_assoc] at h hkept hread
    have hcomment := h.inComment_init hc
    obtain ⟨kept', hkept', hread'⟩ := h.reads_last hc
    rw [Reading.scan_append] at hcomment
    have hne : reading.scan (reading.scan .code (unlines ls)) init ≠ .line := by
      intro hm
      rw [hm] at hcomment
      cases hcomment
    obtain ⟨kept₀, hread₀⟩ := follows_scan hinit (Reading.unbroken_left hinit hunbroken) hne
    rw [← Reading.scan_append] at hread₀
    refine ⟨kept₀ ++ ((reading.scan .code (unlines ls ++ init)).ahead ++ [c]), ?_, fun t => ?_⟩
    · have hedge := h.edge
      rw [List.getLast?_concat] at hedge
      rwa [← List.append_assoc, List.getLast?_concat]
    · rw [scriptLine, ← Mode.read_of_startsLine hstart, List.append_assoc, List.append_assoc,
        hread₀, hread', hread, ← hkept']
      simp only [keeping, hkept, List.append_assoc]
      rfl

end BeginsToken

end Flowline.Guard.ScriptText
