import Flowline.Proofs.Guard.Reading

/-!
# Strings and comments of Python

A reading of a whole Python text, character by character, that tells code from strings and comments:
a tripled string goes on over line ends, any other string only over an escaped one, and a line feed,
a carriage return and both in this order each end a line. As long as no string but a tripled one
goes on over a line end, and no carriage return stands alone, the guard agrees with this reading: it
takes each line up where the reading is, and leaves out nothing but comments.
-/
namespace Flowline.Guard.PythonText

open Text

inductive Quote where
  | single
  | double
deriving DecidableEq

def Quote.char : Quote → Char
  | single => '\''
  | double => '"'

/-- What has been read so far. -/
inductive Mode where
  | code
  | comment
  /-- One quote: the beginning of a string. -/
  | opened (q : Quote)
  /-- Two quotes: an empty string, or the beginning of a tripled one. -/
  | emptied (q : Quote)
  | inside (q : Quote) (tripled : Bool)
  | escaped (q : Quote) (tripled : Bool)
  /-- An escaped carriage return, with which a line feed belongs. -/
  | returned (q : Quote) (tripled : Bool)
  /-- One or two quotes within a tripled string. -/
  | closing (q : Quote) (twice : Bool)
deriving DecidableEq

def nextInCode (c : Char) : Mode :=
  if c = '#' then .comment
  else if c = Quote.single.char then .opened .single
  else if c = Quote.double.char then .opened .double
  else .code

/-- A string that is not tripled ends with its line. -/
def nextInString (q : Quote) (tripled : Bool) (c : Char) : Mode :=
  if c = '\\' then .escaped q tripled
  else if c = q.char then if tripled then .closing q false else .code
  else if isLineEnd c && !tripled then .code
  else .inside q tripled

def next : Mode → Char → Mode
  | .code, c => nextInCode c
  | .comment, c => if isLineEnd c then .code else .comment
  | .opened q, c => if c = q.char then .emptied q else nextInString q false c
  | .emptied q, c => if c = q.char then .inside q true else nextInCode c
  | .inside q tripled, c => nextInString q tripled c
  | .escaped q tripled, c => if c = '\r' then .returned q tripled else .inside q tripled
  | .returned q tripled, c => if c = '\n' then .inside q tripled else nextInString q tripled c
  | .closing q false, c => if c = q.char then .closing q true else nextInString q true c
  | .closing q true, c => if c = q.char then .code else nextInString q true c

/-- A line end would leave a string open that is not tripled. -/
def Mode.spills : Mode → Bool
  | .escaped _ false | .returned _ false => true
  | _ => false

theorem next_return {m : Mode} (h : m.spills = false) : next (next m '\r') '\n' = next m '\n' := by
  cases m with
  | code | comment => rfl
  | opened q | emptied q => cases q <;> rfl
  | inside q tripled => cases q <;> cases tripled <;> rfl
  | escaped q tripled | returned q tripled =>
    cases tripled
    · cases h
    · cases q <;> rfl
  | closing q twice => cases q <;> cases twice <;> rfl

/-- The guard loses a string that goes on over a line end without being tripled. -/
def reading : Reading Mode where
  next := next
  parts m c := isLineEnd c && m.spills
  return_feed _ h := ⟨h, next_return h⟩

/-! ### The guard in the modes -/

/-- The string that is open for the guard. -/
def Mode.openString : Mode → Option OpenString
  | .inside q tripled | .escaped q tripled | .returned q tripled => some ⟨q.char, tripled⟩
  | .closing q _ => some ⟨q.char, true⟩
  | .code | .comment | .opened _ | .emptied _ => none

/-- What has been read but means nothing to the guard without the characters after it. -/
def Mode.ahead : Mode → List Char
  | .opened q | .closing q false => [q.char]
  | .emptied q | .closing q true => [q.char, q.char]
  | .escaped _ _ => ['\\']
  | .code | .comment | .inside _ _ | .returned _ _ => []

/-- What the guard makes of the rest of a line. -/
def Mode.read (m : Mode) (rest : List Char) : List Char × Option OpenString :=
  pythonCode 0 m.openString (m.ahead ++ rest)

theorem Quote.isQuote_char (q : Quote) : isQuote q.char = true := by cases q <;> rfl
theorem Quote.char_ne_hash (q : Quote) : q.char ≠ '#' := by cases q <;> decide
theorem Quote.char_ne_backslash (q : Quote) : q.char ≠ '\\' := by cases q <;> decide

section pythonCode

variable {q : Quote} {tripled : Bool} {c : Char} (rest : List Char)

theorem pythonCode_skip (k : Nat) (state : Option OpenString) (c : Char) :
    pythonCode (k + 1) state (c :: rest) = keeping [c] (pythonCode k state rest) := rfl

theorem pythonCode_none_cons (c : Char) :
    pythonCode 0 none (c :: rest) =
      if c = '#' then ([], none)
      else if isQuote c then
        keeping [c] (pythonCode (if (OpenString.at c rest).tripled then 2 else 0)
          (some (OpenString.at c rest)) rest)
      else keeping [c] (pythonCode 0 none rest) := rfl

theorem pythonCode_some_cons (string : OpenString) (c : Char) :
    pythonCode 0 (some string) (c :: rest) =
      if c = '\\' then keeping [c] (pythonCode 1 (some string) rest)
      else if c ≠ string.quote then keeping [c] (pythonCode 0 (some string) rest)
      else if !string.tripled then keeping [c] (pythonCode 0 none rest)
      else if [c, c].isPrefixOf rest then keeping [c] (pythonCode 2 none rest)
      else keeping [c] (pythonCode 0 (some string) rest) := rfl

theorem pythonCode_code (hc : c ≠ '#') (hq : isQuote c = false) :
    pythonCode 0 none (c :: rest) = keeping [c] (pythonCode 0 none rest) := by
  rw [pythonCode_none_cons, if_neg hc, hq]
  rfl

theorem pythonCode_comment : pythonCode 0 none ('#' :: rest) = ([], none) := rfl

theorem pythonCode_quote (h : [q.char, q.char].isPrefixOf rest = false) :
    pythonCode 0 none (q.char :: rest) =
      keeping [q.char] (pythonCode 0 (some ⟨q.char, false⟩) rest) := by
  rw [pythonCode_none_cons, if_neg q.char_ne_hash, if_pos q.isQuote_char, OpenString.at, h]
  rfl

theorem pythonCode_opened (hc : c ≠ q.char) :
    pythonCode 0 none (q.char :: c :: rest) =
      keeping [q.char] (pythonCode 0 (some ⟨q.char, false⟩) (c :: rest)) :=
  pythonCode_quote _ (by simp [List.isPrefixOf, hc.symm])

theorem pythonCode_closed :
    pythonCode 0 (some ⟨q.char, false⟩) (q.char :: rest) =
      keeping [q.char] (pythonCode 0 none rest) := by
  simp [pythonCode_some_cons, q.char_ne_backslash]

theorem pythonCode_emptied (hc : c ≠ q.char) :
    pythonCode 0 none (q.char :: q.char :: c :: rest) =
      keeping [q.char, q.char] (pythonCode 0 none (c :: rest)) := by
  rw [pythonCode_quote _ (by simp [List.isPrefixOf, hc.symm]), pythonCode_closed, keeping_keeping]
  rfl

theorem pythonCode_tripled :
    pythonCode 0 none (q.char :: q.char :: q.char :: rest) =
      keeping [q.char, q.char, q.char] (pythonCode 0 (some ⟨q.char, true⟩) rest) := by
  simp [pythonCode_none_cons, pythonCode_skip, q.char_ne_hash, q.isQuote_char, OpenString.at,
    keeping_keeping]

theorem pythonCode_escaped :
    pythonCode 0 (some ⟨q.char, tripled⟩) ('\\' :: c :: rest) =
      keeping ['\\', c] (pythonCode 0 (some ⟨q.char, tripled⟩) rest) := rfl

theorem pythonCode_inside (hc : c ≠ '\\') (hq : c ≠ q.char) :
    pythonCode 0 (some ⟨q.char, tripled⟩) (c :: rest) =
      keeping [c] (pythonCode 0 (some ⟨q.char, tripled⟩) rest) := by
  rw [pythonCode_some_cons, if_neg hc, if_pos hq]

theorem pythonCode_closing (hc : c ≠ q.char) :
    pythonCode 0 (some ⟨q.char, true⟩) (q.char :: c :: rest) =
      keeping [q.char] (pythonCode 0 (some ⟨q.char, true⟩) (c :: rest)) := by
  rw [pythonCode_some_cons]
  simp [q.char_ne_backslash, hc.symm]

theorem pythonCode_closing_twice (hc : c ≠ q.char) :
    pythonCode 0 (some ⟨q.char, true⟩) (q.char :: q.char :: c :: rest) =
      keeping [q.char, q.char] (pythonCode 0 (some ⟨q.char, true⟩) (c :: rest)) := by
  rw [pythonCode_some_cons]
  simp [q.char_ne_backslash, hc.symm, pythonCode_closing rest hc, keeping_keeping]

theorem pythonCode_closed_tripled :
    pythonCode 0 (some ⟨q.char, true⟩) (q.char :: q.char :: q.char :: rest) =
      keeping [q.char, q.char, q.char] (pythonCode 0 none rest) := by
  simp [pythonCode_some_cons, pythonCode_skip, q.char_ne_backslash, keeping_keeping]

end pythonCode

/-- After `s` the guard is in a mode, and has kept all that is not still ahead of it. -/
def Reads (state : Option OpenString) (s : List Char) (m : Mode) : Prop :=
  ∃ kept, kept ++ m.ahead = s ∧
    ∀ rest, pythonCode 0 state (s ++ rest) = keeping kept (m.read rest)

namespace Reads

variable {state : Option OpenString} {m : Mode} {s : List Char}

theorem refl (m : Mode) : Reads m.openString m.ahead m :=
  ⟨[], rfl, fun _ => rfl⟩

theorem of_keeping (hahead : m.ahead = [])
    (h : ∀ rest, pythonCode 0 state (s ++ rest) = keeping s (pythonCode 0 m.openString rest)) :
    Reads state s m :=
  ⟨s, by rw [hahead, List.append_nil], fun rest => by rw [h, Mode.read, hahead, List.nil_append]⟩

theorem trans {m' : Mode} {t : List Char} (h : Reads state s m)
    (h' : Reads m.openString (m.ahead ++ t) m') : Reads state (s ++ t) m' := by
  obtain ⟨kept, rfl, hread⟩ := h
  obtain ⟨kept', hahead, hread'⟩ := h'
  refine ⟨kept ++ kept', by rw [List.append_assoc, hahead, List.append_assoc], fun rest => ?_⟩
  rw [List.append_assoc, hread, Mode.read, ← List.append_assoc, hread', keeping_keeping]

/-- What is decided by the next character only, and then is code or a string that goes on. -/
theorem after {state' : Option OpenString} {c : Char} (h' : Reads state' [c] m)
    (h : ∀ rest,
      pythonCode 0 state (s ++ c :: rest) = keeping s (pythonCode 0 state' (c :: rest))) :
    Reads state (s ++ [c]) m := by
  obtain ⟨kept, hahead, hread⟩ := h'
  refine ⟨s ++ kept, by rw [List.append_assoc, hahead], fun rest => ?_⟩
  rw [List.append_assoc, List.singleton_append, h, ← keeping_keeping, ← hread,
    List.singleton_append]

end Reads

theorem reads_in_code {c : Char} (h : nextInCode c ≠ .comment) : Reads none [c] (nextInCode c) := by
  unfold nextInCode at h ⊢
  split
  · rename_i hc
    exact absurd (if_pos hc) h
  rename_i hhash
  split
  · rename_i hc
    exact hc ▸ .refl (.opened .single)
  rename_i hsingle
  split
  · rename_i hc
    exact hc ▸ .refl (.opened .double)
  rename_i hdouble
  have hquote : isQuote c = false := by simpa [isQuote, Quote.char] using ⟨hsingle, hdouble⟩
  exact .of_keeping rfl fun rest => pythonCode_code rest hhash hquote

theorem reads_in_string (q : Quote) (tripled : Bool) {c : Char} (hc : isLineEnd c = false) :
    Reads (some ⟨q.char, tripled⟩) [c] (nextInString q tripled c) := by
  unfold nextInString
  rw [hc, Bool.false_and, if_neg Bool.false_ne_true]
  split
  · rename_i hbackslash
    exact hbackslash ▸ .refl (.escaped q tripled)
  rename_i hbackslash
  split
  · rename_i hquote
    subst hquote
    cases tripled with
    | false => exact .of_keeping rfl pythonCode_closed
    | true => exact .refl (.closing q false)
  · rename_i hquote
    exact .of_keeping rfl fun rest => pythonCode_inside rest hbackslash hquote

/-- One character, but for a line end or the beginning of a comment. -/
theorem reads_next {m : Mode} {c : Char} (hc : isLineEnd c = false) (hm : m ≠ .comment)
    (hnext : next m c ≠ .comment) : Reads m.openString (m.ahead ++ [c]) (next m c) := by
  have hfeed : c ≠ '\n' ∧ c ≠ '\r' := by simpa [isLineEnd] using hc
  cases m with
  | code => exact reads_in_code hnext
  | comment => exact absurd rfl hm
  | opened q =>
    by_cases hq : c = q.char
    · subst hq
      rw [next, if_pos rfl]
      exact .refl (.emptied q)
    · rw [next, if_neg hq]
      exact (reads_in_string q false hc).after fun rest => pythonCode_opened rest hq
  | emptied q =>
    by_cases hq : c = q.char
    · subst hq
      rw [next, if_pos rfl]
      exact .of_keeping rfl pythonCode_tripled
    · rw [next, if_neg hq] at hnext ⊢
      exact (reads_in_code hnext).after fun rest => pythonCode_emptied rest hq
  | inside q tripled => exact reads_in_string q tripled hc
  | escaped q tripled =>
    rw [next, if_neg hfeed.2]
    exact .of_keeping rfl pythonCode_escaped
  | returned q tripled =>
    rw [next, if_neg hfeed.1]
    exact reads_in_string q tripled hc
  | closing q twice =>
    by_cases hq : c = q.char
    · subst hq
      cases twice with
      | false =>
        rw [next, if_pos rfl]
        exact .refl (.closing q true)
      | true =>
        rw [next, if_pos rfl]
        exact .of_keeping rfl pythonCode_closed_tripled
    · cases twice with
      | false =>
        rw [next, if_neg hq]
        exact (reads_in_string q true hc).after fun rest => pythonCode_closing rest hq
      | true =>
        rw [next, if_neg hq]
        exact (reads_in_string q true hc).after fun rest => pythonCode_closing_twice rest hq

theorem nextInString_ne_comment (q : Quote) (tripled : Bool) (c : Char) :
    nextInString q tripled c ≠ .comment := by
  unfold nextInString
  grind

theorem nextInCode_eq_comment {c : Char} (h : nextInCode c = .comment) : c = '#' := by
  unfold nextInCode at h
  grind

/-- A comment begins in code. -/
theorem next_eq_comment {m : Mode} {c : Char} (hm : m ≠ .comment) (h : next m c = .comment) :
    c = '#' ∧ (m = .code ∨ ∃ q, m = .emptied q) := by
  unfold next at h
  split at h
  · exact ⟨nextInCode_eq_comment h, Or.inl rfl⟩
  · exact absurd rfl hm
  · split at h
    · cases h
    · exact absurd h (nextInString_ne_comment _ _ _)
  · split at h
    · cases h
    · exact ⟨nextInCode_eq_comment h, Or.inr ⟨_, rfl⟩⟩
  · exact absurd h (nextInString_ne_comment _ _ _)
  · split at h <;> cases h
  all_goals
    split at h
    · cases h
    · exact absurd h (nextInString_ne_comment _ _ _)

/-- Where a comment begins, the guard leaves out the rest of the line. -/
theorem read_comment {m : Mode} {c : Char} (hm : m ≠ .comment) (h : next m c = .comment)
    (rest : List Char) : m.read (c :: rest) = (m.ahead, none) := by
  obtain ⟨rfl, rfl | ⟨q, rfl⟩⟩ := next_eq_comment hm h
  · exact pythonCode_comment rest
  · exact (pythonCode_emptied rest q.char_ne_hash.symm).trans (by rw [pythonCode_comment]; rfl)

theorem ne_comment_of_scan {m : Mode} {s : List Char} (hs : ∀ c ∈ s, isLineEnd c = false)
    (h : reading.scan m s ≠ .comment) : m ≠ .comment := by
  rintro rfl
  induction s with
  | nil => exact h rfl
  | cons c s ih =>
    obtain ⟨hc, hs⟩ := List.forall_mem_cons.mp hs
    have hnext : reading.next .comment c = .comment := if_neg (by simp [hc])
    rw [Reading.scan_cons, hnext] at h
    exact ih hs h

/-- Within a line, and not in a comment, the guard goes with the reading. -/
theorem reads_scan {m : Mode} {s : List Char} (hs : ∀ c ∈ s, isLineEnd c = false)
    (h : reading.scan m s ≠ .comment) :
    Reads m.openString (m.ahead ++ s) (reading.scan m s) := by
  induction s generalizing m with
  | nil => simpa using Reads.refl m
  | cons c s ih =>
    obtain ⟨hc, hs⟩ := List.forall_mem_cons.mp hs
    have hm := ne_comment_of_scan (List.forall_mem_cons.mpr ⟨hc, hs⟩) h
    rw [← List.singleton_append, ← List.append_assoc]
    exact (reads_next hc hm (ne_comment_of_scan hs h)).trans (ih hs h)

/-! ### Lines -/

/-- Where the guard takes a line up: in code or within a string. -/
def Mode.startsLine : Mode → Bool
  | .code | .inside _ _ => true
  | _ => false

section startsLine

variable {m : Mode} (hm : m.startsLine = true)

include hm

theorem Mode.read_of_startsLine (line : List Char) :
    m.read line = pythonCode 0 m.openString line := by
  cases m <;> first | rfl | cases hm

theorem Mode.ne_comment_of_startsLine : m ≠ .comment := by
  rintro rfl
  cases hm

theorem Mode.ahead_of_startsLine : m.ahead = [] := by
  cases m <;> first | rfl | cases hm

end startsLine

theorem Mode.startsLine_next (m : Mode) : (next m '\n').startsLine = true := by
  cases m with
  | code | comment => rfl
  | opened q | emptied q => cases q <;> rfl
  | inside q tripled | escaped q tripled | returned q tripled => cases q <;> cases tripled <;> rfl
  | closing q twice => cases q <;> cases twice <;> rfl

/-- At the end of a line the guard drops a string that is not tripled. -/
theorem read_nil {m : Mode} (hm : m.spills = false) :
    (m.read []).2.filter (·.tripled) = (next m '\n').openString := by
  cases m with
  | code | comment => rfl
  | opened q | emptied q => cases q <;> rfl
  | inside q tripled => cases q <;> cases tripled <;> rfl
  | escaped q tripled | returned q tripled =>
    cases tripled
    · cases hm
    · cases q <;> rfl
  | closing q twice => cases q <;> cases twice <;> rfl

theorem pythonLine_state {m : Mode} (hm : m.startsLine = true) {line : List Char}
    (hline : ∀ c ∈ line, isLineEnd c = false) (hspills : (reading.scan m line).spills = false) :
    (pythonLine m.openString line).2 = (next (reading.scan m line) '\n').openString := by
  rw [← read_nil hspills]
  change (pythonCode 0 m.openString line).2.filter _ = _
  by_cases hcomment : reading.scan m line = .comment
  · obtain ⟨a, c, b, rfl, ha, hc⟩ := reading.exists_first (m.ne_comment_of_startsLine hm) hcomment
    obtain ⟨kept, -, hread⟩ := reads_scan (fun d hd => hline d (List.mem_append_left _ hd)) ha
    rw [m.ahead_of_startsLine hm, List.nil_append] at hread
    rw [hread, hcomment, read_comment ha hc]
    rfl
  · obtain ⟨kept, -, hread⟩ := reads_scan hline hcomment
    have hend := hread []
    rw [m.ahead_of_startsLine hm, List.nil_append, List.append_nil] at hend
    rw [hend]
    rfl

theorem tracks : reading.Tracks pythonLine Mode.openString Mode.startsLine where
  line_state hm hline _ hspills := pythonLine_state hm hline hspills
  starts_next _ := Mode.startsLine_next _

/-- What is left of a line that is code up to a place. -/
theorem pythonLine_code {m : Mode} (hm : m.startsLine = true) {s : List Char}
    (hs : ∀ c ∈ s, isLineEnd c = false) (hcode : reading.scan m s = .code) (t : List Char) :
    (pythonLine m.openString (s ++ t)).1 = s ++ (pythonCode 0 none t).1 := by
  have hne : reading.scan m s ≠ .comment := by
    rw [hcode]
    exact Mode.noConfusion
  obtain ⟨kept, hkept, hread⟩ := reads_scan hs hne
  rw [m.ahead_of_startsLine hm, List.nil_append] at hread hkept
  rw [hcode, Mode.ahead, List.append_nil] at hkept
  rw [pythonLine, hread, hcode, hkept]
  rfl

theorem pythonCode_isPrefix (skip : Nat) (state : Option OpenString) (s : List Char) :
    (pythonCode skip state s).1 <+: s := by
  induction s generalizing skip state with
  | nil => exact List.prefix_refl []
  | cons c s ih =>
    have hgo : ∀ skip state, (keeping [c] (pythonCode skip state s)).1 <+: c :: s :=
      fun skip state => (List.prefix_cons_inj c).mpr (ih skip state)
    cases skip with
    | succ k => exact hgo k state
    | zero =>
      cases state with
      | none =>
        rw [pythonCode_none_cons]
        split
        · exact List.nil_prefix
        · split <;> exact hgo ..
      | some string =>
        rw [pythonCode_some_cons]
        split
        · exact hgo ..
        · split
          · exact hgo ..
          · split
            · exact hgo ..
            · split <;> exact hgo ..

theorem pythonCode_head {t : List Char} : (pythonCode 0 none t).1.head? ≠ some '#' := by
  cases t with
  | nil => exact Option.some_ne_none '#' |>.symm
  | cons c t =>
    rw [pythonCode_none_cons]
    split
    · exact Option.some_ne_none '#' |>.symm
    · rename_i hc
      split <;> simpa [keeping] using hc

theorem codeLines_no_feed (source : List Char) :
    ∀ code ∈ codeLines pythonLine none (lineChars source), '\n' ∉ code := by
  have hstep : ∀ state line, (pythonLine state line).1 ⊆ line :=
    fun state line => (pythonCode_isPrefix 0 state line).subset
  exact Guard.codeLines_no_feed hstep fun _ => not_mem_of_mem_lineChars

/-- What the guard finds on a line that is code up to a place is found in the source, whatever
follows there. -/
theorem mem_moduleRefs_of_line {ls : List (List Char)} (hls : ∀ l ∈ ls, '\n' ∉ l)
    {s : List Char} (hne : s ≠ []) (hs : '\n' ∉ s)
    (h : reading.unbroken .code (unlines ls ++ s) = true)
    (hcode : reading.scan .code (unlines ls ++ s) = .code) {t name : List Char}
    (hname : ∀ t', t' <+: t → '\n' ∉ t' → t'.head? ≠ some '#' → name ∈ pythonPackages (s ++ t')) :
    ⟨String.ofList name, ls.length + 1⟩ ∈
      moduleRefs .python (withoutComments .python (unlines ls ++ s ++ t)) := by
  obtain ⟨-, hstart⟩ := tracks.stateAfter_eq hls rfl h
  have hends := Reading.unbroken_no_end hs (Reading.unbroken_append h)
  obtain ⟨t₁, ht₁, hfeed, hline⟩ := tracks.getElem?_codeLines hls rfl hne hs h t
  rw [Reading.scan_append] at hcode
  rw [pythonLine_code hstart hends hcode] at hline
  have hkept := pythonCode_isPrefix 0 none t₁
  obtain ⟨t₂, ht₂, hstrip⟩ :=
    stripReturn_append (getLast?_ne_return hends) (pythonCode 0 none t₁).1
  refine mem_moduleRefs (codeLines_no_feed _) hline ?_
  rw [hstrip]
  refine hname t₂ (ht₂.trans (hkept.trans ht₁))
    (fun hmem => hfeed ((ht₂.trans hkept).subset hmem)) ?_
  exact fun hhead => pythonCode_head (mem_head?_mono ht₂ hhead)

end Flowline.Guard.PythonText
