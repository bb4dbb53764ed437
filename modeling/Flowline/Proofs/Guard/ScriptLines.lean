import Flowline.Proofs.Guard.ScriptText
import Flowline.Proofs.Text.Scan

/-!
# The lines of JavaScript that the guard looks at

The guard keeps the text from the beginning of a line on, and takes each line to begin one byte
after the end of the line before it. A carriage return before the end of a line belongs to neither,
so that behind each line with one the guard lags a byte more. Up to the first of them it looks at
every line where it stands, and refuses each call of `require` or `import` on anything but a
literal.
-/
namespace Flowline.Guard.ScriptText

open Text

/-! ### The walk -/

/-- What the guard looks at: each line, and the text from where it takes the line to begin. -/
def visits (source : List Char) : List (List Char) → List (List Char × List Char)
  | [] => []
  | line :: rest => (line, source) :: visits (dropBytes (byteLength line + 1) source) rest

theorem construct?_eq (language : Language) (number : Nat) (source : List Char)
    (lines : List (List Char)) :
    construct? language number source lines = ((visits source lines).zipIdx number).findSome?
      fun ((line, text), i) => (lineConstruct? language line text).map (·, i) := by
  induction lines generalizing number source with
  | nil => rfl
  | cons line lines ih =>
    rw [construct?, visits, List.zipIdx_cons, List.findSome?_cons]
    dsimp only
    cases lineConstruct? language line source with
    | some construct => rfl
    | none => exact ih (number + 1) _

theorem construct?_isSome {language : Language} {line text source : List Char}
    {lines : List (List Char)} (hvisit : (line, text) ∈ visits source lines)
    (h : (lineConstruct? language line text).isSome = true) (number : Nat) :
    (construct? language number source lines).isSome = true := by
  obtain ⟨i, hi⟩ := List.getElem?_of_mem hvisit
  rw [construct?_eq, List.findSome?_isSome_iff]
  refine ⟨((line, text), number + i), ?_, by simpa using h⟩
  rw [List.mem_zipIdx_iff_le_and_getElem?_sub, Nat.add_sub_cancel_left]
  exact ⟨Nat.le_add_right _ i, hi⟩

/-- Where the guard takes the line after these to begin. -/
def offset : List (List Char) → Nat
  | [] => 0
  | line :: lines => byteLength line + 1 + offset lines

@[simp] theorem offset_nil : offset [] = 0 := rfl

@[simp] theorem offset_cons (line : List Char) (lines : List (List Char)) :
    offset (line :: lines) = byteLength line + 1 + offset lines := rfl

/-- The guard tears no character where it takes these lines to begin and to end. -/
def Untorn (text : List Char) (lines : List (List Char)) : Prop :=
  ∀ n, ∀ _ : n < lines.length, isBoundary (offset (lines.take n)) text = true ∧
    isBoundary (offset (lines.take n) + byteLength lines[n]) text = true

instance (text : List Char) (lines : List (List Char)) : Decidable (Untorn text lines) :=
  inferInstanceAs (Decidable (∀ n, ∀ _ : n < lines.length, _))

theorem Untorn.last {text line : List Char} {lines : List (List Char)}
    (h : Untorn text (lines ++ [line])) : isBoundary (offset lines) text = true ∧
      isBoundary (offset lines + byteLength line) text = true := by
  simpa using h lines.length (by simp)

theorem Untorn.tail {text line : List Char} {lines : List (List Char)}
    (h : Untorn text (line :: lines)) (hcut : isBoundary (byteLength line + 1) text = true) :
    Untorn (dropBytes (byteLength line + 1) text) lines := by
  intro n hn
  have hnext := h (n + 1) (Nat.succ_lt_succ hn)
  rw [List.take_succ_cons, List.getElem_cons_succ, offset_cons] at hnext
  rwa [isBoundary_dropBytes hcut, isBoundary_dropBytes hcut, ← Nat.add_assoc]

/-- As long as it tears no character, the guard has the text from the offset on. -/
theorem visits_getElem? {text line : List Char} {lines : List (List Char)}
    (h : Untorn text (lines ++ [line])) (more : List (List Char)) :
    (visits text (lines ++ line :: more))[lines.length]? =
      some (line, dropBytes (offset lines) text) := by
  induction lines generalizing text with
  | nil => simp [visits]
  | cons l lines ih =>
    have hcut : isBoundary (byteLength l + 1) text = true := by
      simpa using (h 1 (by simp)).1
    rw [List.cons_append, visits, List.length_cons, List.getElem?_cons_succ, ih (h.tail hcut),
      dropBytes_dropBytes hcut, offset_cons]

/-! ### Lines -/

/-- A line of a text, with the lines before it and the text after it. -/
structure IsLine (before : List (List Char)) (line after text : List Char) : Prop where
  text_eq : text = unlines before ++ (line ++ '\n' :: after)
  before_no_feed : ∀ l ∈ before, '\n' ∉ l
  no_feed : '\n' ∉ line

/-- The lines that end in a carriage return. -/
def returns (lines : List (List Char)) : Nat := lines.countP fun line => line.getLast? == some '\r'

theorem byteLength_stripReturn (line : List Char) :
    byteLength (stripReturn line) + (if line.getLast? == some '\r' then 1 else 0) =
      byteLength line := by
  unfold stripReturn
  split
  · rename_i hlast
    obtain ⟨init, rfl⟩ := List.getLast?_eq_some_iff.mp hlast
    rw [List.dropLast_concat, byteLength_append, if_pos (beq_iff_eq.mpr hlast)]
    rfl
  · rename_i hlast
    rw [if_neg (mt beq_iff_eq.mp hlast), Nat.add_zero]

theorem returns_concat (before : List (List Char)) {line returned : List Char}
    (h : line = stripReturn line ++ returned) :
    returns (before ++ [line]) = returns before + byteLength returned := by
  have hlength := byteLength_stripReturn line
  have happend := congrArg byteLength h
  rw [byteLength_append] at happend
  rw [returns, List.countP_append, List.countP_singleton, returns]
  omega

theorem unlines_eq_of_lt {lines : List (List Char)} {n : Nat} (h : n < lines.length) :
    unlines lines =
      unlines (lines.take n) ++ (lines[n] ++ '\n' :: unlines (lines.drop (n + 1))) := by
  calc unlines lines = unlines (lines.take n ++ lines.drop n) := by rw [List.take_append_drop]
    _ = unlines (lines.take n) ++ unlines (lines.drop n) := List.flatMap_append
    _ = _ := by rw [List.drop_eq_getElem_cons h, unlines_cons]

theorem getLast?_unlines (lines : List (List Char)) :
    ∀ c ∈ (unlines lines).getLast?, c = '\n' := by
  obtain rfl | ⟨init, line, rfl⟩ := List.eq_nil_or_concat lines
  · exact nofun
  · intro c hc
    have hend : unlines (init ++ [line]) = unlines init ++ line ++ ['\n'] := by simp [unlines]
    rw [List.concat_eq_append, hend, List.getLast?_concat] at hc
    exact (Option.some.inj hc).symm

/-- The guard lags one byte behind for each line before that ends in a carriage return. -/
theorem offset_add_returns (before : List (List Char)) :
    offset (before.map stripReturn) + returns before = byteLength (unlines before) := by
  induction before with
  | nil => rfl
  | cons l before ih =>
    have hl := byteLength_stripReturn l
    have hfeed : ('\n').utf8Size = 1 := rfl
    rw [unlines_cons, byteLength_append, byteLength_cons, hfeed, ← ih, ← hl, returns,
      List.countP_cons, List.map_cons, offset_cons, returns]
    omega

/-- Up to the first line that ends in a carriage return every line begins at its offset. -/
theorem offset_eq {before : List (List Char)} (hreturns : returns before = 0) :
    offset (before.map stripReturn) = byteLength (unlines before) := by
  rw [← offset_add_returns, hreturns, Nat.add_zero]

namespace IsLine

variable {before : List (List Char)} {line after text : List Char}

theorem lineChars_eq (h : IsLine before line after text) :
    lineChars text = before.map stripReturn ++ stripReturn line :: lineChars after := by
  rw [h.text_eq, lineChars_unlines_append h.before_no_feed, lineChars_append_cons h.no_feed]

theorem offset_add_le (h : IsLine before line after text) :
    offset (before.map stripReturn) + byteLength (stripReturn line) ≤ byteLength text := by
  have hlag := offset_add_returns before
  have hstrip := byteLength_stripReturn line
  rw [h.text_eq, byteLength_append, byteLength_append]
  omega

theorem visits_getElem? (h : IsLine before line after text)
    (huntorn : Untorn text ((before ++ [line]).map stripReturn)) :
    (visits text (lineChars text))[before.length]? =
      some (stripReturn line, dropBytes (offset (before.map stripReturn)) text) := by
  rw [List.map_append] at huntorn
  have hvisit := ScriptText.visits_getElem? huntorn (lineChars after)
  rwa [← h.lineChars_eq, List.length_map] at hvisit

/-- What the guard has for a line begins with the bytes before the line by which it lags behind. -/
theorem exists_lag (h : IsLine before line after text)
    (hbegin : isBoundary (offset (before.map stripReturn)) text = true) :
    ∃ lag, dropBytes (offset (before.map stripReturn)) text = lag ++ (line ++ '\n' :: after) ∧
      byteLength lag = returns before ∧ ∀ c ∈ lag.getLast?, c = '\n' := by
  have hcut := takeBytes_append_dropBytes hbegin
  have hlength := beq_iff_eq.mp hbegin
  have hlag := offset_add_returns before
  generalize takeBytes _ text = a at hcut hlength
  generalize dropBytes _ text = rest at hcut
  rw [h.text_eq] at hcut
  obtain ⟨lag, hbefore, hrest⟩ | ⟨extra, ha, hrest⟩ := List.append_eq_append_iff.mp hcut
  · rw [hbefore, byteLength_append] at hlag
    refine ⟨lag, hrest, by omega, fun c hc => getLast?_unlines before c ?_⟩
    rw [hbefore, List.getLast?_append, hc]
    exact rfl
  · rw [ha, byteLength_append] at hlength
    obtain rfl : extra = [] := byteLength_eq_zero.mp (by omega)
    exact ⟨[], by simpa using hrest.symm, by rw [byteLength_nil]; omega, nofun⟩

theorem forall_no_feed (h : IsLine before line after text) : ∀ l ∈ before ++ [line], '\n' ∉ l := by
  simpa [or_imp, forall_and] using And.intro h.before_no_feed h.no_feed

/-- The lines up to a line are lines as well. -/
theorem earlier (h : IsLine before line after text) {n : Nat} (hn : n < (before ++ [line]).length) :
    IsLine ((before ++ [line]).take n) (before ++ [line])[n]
      (unlines ((before ++ [line]).drop (n + 1)) ++ after) text where
  text_eq := by
    have hwhole : text = unlines (before ++ [line]) ++ after := by
      rw [h.text_eq]
      simp [unlines]
    rw [hwhole, unlines_eq_of_lt hn]
    simp
  before_no_feed l hl := h.forall_no_feed l (List.mem_of_mem_take hl)
  no_feed := h.forall_no_feed _ (List.getElem_mem hn)

theorem text_eq_stripped (h : IsLine before line after text) :
    ∃ returned, text = unlines before ++ (stripReturn line ++ (returned ++ '\n' :: after)) := by
  obtain ⟨returned, hline⟩ := isPrefix_stripReturn line
  refine ⟨returned, ?_⟩
  rw [← List.append_assoc (stripReturn line), hline, h.text_eq]

/-- Up to the first line that ends in a carriage return the guard has each line in its place. -/
theorem takeBytes_offset (h : IsLine before line after text) (hreturns : returns before = 0) :
    takeBytes (byteLength (stripReturn line)) (dropBytes (offset (before.map stripReturn)) text) =
      stripReturn line := by
  obtain ⟨returned, htext⟩ := h.text_eq_stripped
  rw [offset_eq hreturns, htext, dropBytes_left, takeBytes_left]

theorem isBoundary_offset (h : IsLine before line after text) (hreturns : returns before = 0) :
    isBoundary (offset (before.map stripReturn)) text = true ∧
      isBoundary (offset (before.map stripReturn) + byteLength (stripReturn line)) text = true := by
  obtain ⟨returned, htext⟩ := h.text_eq_stripped
  rw [offset_eq hreturns, htext, isBoundary_append]
  exact ⟨isBoundary_left _ _, isBoundary_left _ _⟩

theorem untorn (h : IsLine before line after text) (hreturns : returns before = 0) :
    Untorn text ((before ++ [line]).map stripReturn) := by
  intro n hn
  rw [List.length_map] at hn
  have hnone : returns ((before ++ [line]).take n) = 0 := by
    have hle : n ≤ before.length := by simpa [Nat.lt_succ_iff] using hn
    rw [List.take_append_of_le_length hle]
    rw [returns, List.countP_eq_zero] at hreturns ⊢
    exact fun l hl => hreturns l (List.mem_of_mem_take hl)
  rw [← List.map_take, List.getElem_map]
  exact (h.earlier hn).isBoundary_offset hnone

end IsLine

/-! ### Loads -/

/-- What ends a literal, and what the guard takes for a sign that it is none: an escape, something
to be put into a template, and the end of the line in another string. -/
def stops (q : Quote) (c : Char) : Bool :=
  c == q.char || c == '\\' || (if q = .back then c == '$' else c == '\n')

/-- One literal, and the end of the call. -/
inductive OnLiteral : List Char → Prop
  | literal {gap body gap' : List Char} (q : Quote) (rest : List Char)
      (hgap : ∀ c ∈ gap, isBlank c = true) (hbody : ∀ c ∈ body, stops q c = false)
      (hgap' : ∀ c ∈ gap', isBlank c = true) :
      OnLiteral (gap ++ q.char :: body ++ q.char :: gap' ++ ')' :: rest)

/-- A call of `require` or `import`, before its argument. -/
inductive CallsLoad (argument : List Char) : List Char → Prop
  | call {x word gap : List Char} (hword : word = "require".toList ∨ word = "import".toList)
      (hx : ∀ c ∈ x.getLast?, isScriptWord c = false) (hgap : ∀ c ∈ gap, isBlank c = true) :
      CallsLoad argument (x ++ (word ++ (gap ++ '(' :: argument)))

theorem exists_quote {c : Char} (h : isScriptQuote c = true) : ∃ q : Quote, c = q.char := by
  simp only [isScriptQuote, isQuote, Bool.or_eq_true, beq_iff_eq] at h
  obtain (rfl | rfl) | rfl := h
  · exact ⟨.single, rfl⟩
  · exact ⟨.double, rfl⟩
  · exact ⟨.back, rfl⟩

theorem stops_eq (q : Quote) (c : Char) :
    (c == q.char || c == '\\' || if (q.char == '\x60') = true then c == '$' else c == '\n') =
      stops q c := by
  cases q <;> rfl

theorem onLiteral_of_literalArgument {s : List Char} (h : literalArgument s = true) :
    OnLiteral s := by
  obtain ⟨r, hr⟩ := Option.isSome_iff_exists.mp h
  simp only [Option.bind_eq_bind, Option.bind_eq_some_iff] at hr
  obtain ⟨c, hc, hr⟩ := hr
  split at hr
  · cases hr
  rename_i hquote
  obtain ⟨q, rfl⟩ := exists_quote (by simpa using hquote)
  simp only [stops_eq, Option.bind_eq_some_iff] at hr
  obtain ⟨after, hafter, hclosed⟩ := hr
  obtain ⟨body, hbody⟩ := List.head?_eq_some_iff.mp hc
  rw [hbody, List.drop_succ_cons, List.drop_zero] at hafter
  obtain ⟨d, hend, hd⟩ := oneOf?_eq_some hafter
  obtain ⟨e, hclose, he⟩ := oneOf?_eq_some hclosed
  obtain rfl : d = q.char := by simpa using hd
  obtain rfl : e = ')' := by simpa using he
  obtain ⟨gap, hs, hgap⟩ := exists_skipBlank s
  obtain ⟨gap', hs', hgap'⟩ := exists_skipBlank after
  have hinside : ∀ c ∈ body.takeWhile (fun c => !stops q c), stops q c = false := fun c hc => by
    simpa using List.all_eq_true.mp List.all_takeWhile c hc
  have hsplit := List.takeWhile_append_dropWhile (p := fun c => !stops q c) (l := body)
  rw [hs, hbody, ← hsplit, hend, hs', hclose]
  simpa using OnLiteral.literal q r hgap hinside hgap'

theorem OnLiteral.literalArgument {s : List Char} (h : OnLiteral s) :
    literalArgument s = true := by
  obtain @⟨gap, body, gap', q, rest, hgap, hbody, hgap'⟩ := h
  have htext : gap ++ q.char :: body ++ q.char :: gap' ++ ')' :: rest =
      gap ++ q.char :: (body ++ q.char :: (gap' ++ ')' :: rest)) := by simp
  have hquote : isBlank q.char = false := by cases q <;> decide
  have hskip : skipBlank (gap ++ q.char :: (body ++ q.char :: (gap' ++ ')' :: rest))) =
      q.char :: (body ++ q.char :: (gap' ++ ')' :: rest)) := by
    rw [skipBlank_append hgap, skipBlank_cons hquote]
  have hinside : (body ++ q.char :: (gap' ++ ')' :: rest)).dropWhile (fun c => !stops q c) =
      q.char :: (gap' ++ ')' :: rest) :=
    dropWhile_run (fun c hc => by simp [hbody c hc]) (by simp [stops])
  have hclose : skipBlank (gap' ++ ')' :: rest) = ')' :: rest := by
    rw [skipBlank_append hgap', skipBlank_cons (by decide)]
  unfold Guard.literalArgument
  rw [htext]
  simp only [hskip, List.head?_cons, Option.bind_eq_bind, Option.bind_some, stops_eq,
    List.drop_succ_cons, List.drop_zero, hinside]
  simp [q.isScriptQuote_char, oneOf?, hclose]

/-- What the guard takes for one literal is one, and the other way round. -/
theorem literalArgument_iff (s : List Char) : literalArgument s = true ↔ OnLiteral s :=
  ⟨onLiteral_of_literalArgument, OnLiteral.literalArgument⟩

instance (s : List Char) : Decidable (OnLiteral s) := decidable_of_iff _ (literalArgument_iff s)

/-- Only one of the words is called. -/
theorem find?_calls {word gap : List Char}
    (hword : word = "require".toList ∨ word = "import".toList)
    (hgap : ∀ c ∈ gap, isBlank c = true) (rest : List Char) :
    ["require", "import"].find? (fun name => calls name (word ++ (gap ++ '(' :: rest))) =
      some (String.ofList word) := by
  have hopens : (skipBlank (gap ++ '(' :: rest)).head? = some '(' := by
    rw [skipBlank_append hgap, skipBlank_cons (by decide)]
    rfl
  have hcalls : calls (String.ofList word) (word ++ (gap ++ '(' :: rest)) = true := by
    simp [calls, after?_append, hopens]
  obtain rfl | rfl := hword
  · exact List.find?_cons_of_pos (p := fun name => calls name _) hcalls
  · have hother : calls "require" ("import".toList ++ (gap ++ '(' :: rest)) = false := rfl
    refine (List.find?_cons_of_neg (p := fun name => calls name _) ?_).trans
      (List.find?_cons_of_pos (p := fun name => calls name _) hcalls)
    exact Bool.eq_false_iff.mp hother

/-- A load whose argument is not one literal is found though the guard lags behind, as long as it
does not lag so far that its line ends before the argument begins. -/
theorem computedLoad?_isSome {lag argument line after : List Char} (h : CallsLoad argument line)
    (hlag : ∀ c ∈ lag.getLast?, isScriptWord c = false)
    (hlength : byteLength lag ≤ byteLength argument)
    (hend : isBoundary (byteLength line) (lag ++ (line ++ after)) = true)
    (hliteral : ¬OnLiteral (argument ++ after)) :
    (computedLoad? (byteLength line) (lag ++ (line ++ after))).isSome = true := by
  have hcomputed : literalArgument (argument ++ after) = false :=
    Bool.eq_false_iff.mpr fun h => hliteral ((literalArgument_iff _).mp h)
  obtain @⟨x, word, gap, hword, hx, hgap⟩ := h
  -- the call up to its argument, and how much of the argument the guard takes for the line
  let called := lag ++ x ++ (word ++ (gap ++ ['(']))
  obtain ⟨n, hn⟩ := Nat.exists_eq_add_of_le hlength
  have htext : lag ++ (x ++ (word ++ (gap ++ '(' :: argument)) ++ after) =
      called ++ (argument ++ after) := by simp [called]
  have hbytes : byteLength (x ++ (word ++ (gap ++ '(' :: argument))) = byteLength called + n := by
    simp only [called, byteLength_append, byteLength_cons, byteLength_nil]
    omega
  rw [htext, hbytes, isBoundary_append] at hend
  have hcut := takeBytes_append_dropBytes hend
  unfold computedLoad?
  rw [htext, hbytes, takeBytes_append, dropBytes_append]
  generalize takeBytes n (argument ++ after) = taken at hcut
  generalize dropBytes n (argument ++ after) = left at hcut
  have hline : called ++ taken = (lag ++ x) ++ (word ++ (gap ++ '(' :: taken)) := by simp [called]
  have hbefore : ((lag ++ x).getLast?.or none).any isScriptWord = false := by
    rw [Option.or_none, List.getLast?_append]
    cases hlast : x.getLast? with
    | some c => exact hx c hlast
    | none =>
      cases hlast' : lag.getLast? with
      | some c => exact hlag c hlast'
      | none => rfl
  have hopened : skipBlank (gap ++ '(' :: taken) = '(' :: taken := by
    rw [skipBlank_append hgap, skipBlank_cons (by decide)]
  rw [hline]
  refine isSome_search ?_
  simp only [hbefore, find?_calls hword hgap]
  simp [after?_append, hopened, hcut, hcomputed]

/-- A carriage return at the end of the line is left to the text after it. -/
theorem CallsLoad.stripped {argument line : List Char} (h : CallsLoad argument line) :
    ∃ argument' returned, argument = argument' ++ returned ∧ line = stripReturn line ++ returned ∧
      CallsLoad argument' (stripReturn line) := by
  obtain @⟨x, word, gap, hword, hx, hgap⟩ := h
  have hline : ∀ argument, x ++ (word ++ (gap ++ '(' :: argument)) =
      x ++ word ++ gap ++ ['('] ++ argument := fun argument => by simp
  have hlast : (x ++ word ++ gap ++ ['(']).getLast? ≠ some '\r' := by simp
  obtain ⟨argument', ⟨returned, rfl⟩, hstrip⟩ := stripReturn_append hlast argument
  rw [hline, hstrip, ← hline, ← hline]
  exact ⟨argument', returned, rfl, by simp, .call hword hx hgap⟩

/-- Without carriage returns at the ends of lines before a call, its argument is in reach. -/
theorem CallsLoad.returns_le {before : List (List Char)} {argument line : List Char}
    (h : CallsLoad argument line) (hreturns : returns before = 0) :
    returns (before ++ [line]) ≤ byteLength argument := by
  obtain ⟨argument', returned, rfl, hline, -⟩ := h.stripped
  rw [returns_concat before hline, byteLength_append]
  omega

/-- A load whose argument is not one literal is found on its line. -/
theorem lineConstruct?_isSome {before : List (List Char)} {argument line after text : List Char}
    (hline : IsLine before line after text)
    (huntorn : Untorn text ((before ++ [line]).map stripReturn)) (h : CallsLoad argument line)
    (hlength : returns (before ++ [line]) ≤ byteLength argument)
    (hliteral : ¬OnLiteral (argument ++ '\n' :: after)) :
    (lineConstruct? .javaScript (stripReturn line)
      (dropBytes (offset (before.map stripReturn)) text)).isSome = true := by
  rw [List.map_append] at huntorn
  obtain ⟨hbegin, hend⟩ := huntorn.last
  rw [← isBoundary_dropBytes hbegin] at hend
  obtain ⟨lag, hdrop, hlag, hlast⟩ := hline.exists_lag hbegin
  obtain ⟨argument', returned, rfl, heq, hcall⟩ := h.stripped
  have htext : lag ++ (line ++ '\n' :: after) =
      lag ++ (stripReturn line ++ (returned ++ '\n' :: after)) := by
    rw [← List.append_assoc (stripReturn line), ← heq]
  have hword : ∀ c ∈ lag.getLast?, isScriptWord c = false := fun c hc => hlast c hc ▸ rfl
  rw [returns_concat before heq, byteLength_append] at hlength
  rw [List.append_assoc] at hliteral
  rw [hdrop, htext] at hend ⊢
  have hload := computedLoad?_isSome hcall hword (by omega) hend hliteral
  rw [lineConstruct?]
  cases search scriptEvaluatorAt? none (stripReturn line) with
  | some construct => rfl
  | none => exact hload

/-- Each line is looked for one byte before its place for each line before it that ends in a
carriage return, and within the text. As long as no character is torn the guard finds each load
whose argument is not one literal, unless it lags behind so far that the line ends for it before the
argument begins. Up to the first line that ends in a carriage return it does not lag. -/
theorem looks_at_lines (policy : Policy) (source : String) {before : List (List Char)}
    {line after code : List Char} (hcode : withoutComments .javaScript source.toList = code)
    (h : IsLine before line after code) :
    offset (before.map stripReturn) + returns before = byteLength (unlines before) ∧
    offset (before.map stripReturn) + byteLength (stripReturn line) ≤ byteLength code ∧
    (Untorn code ((before ++ [line]).map stripReturn) →
      (visits code (lineChars code))[before.length]? =
        some (stripReturn line, dropBytes (offset (before.map stripReturn)) code) ∧
      ∀ argument, CallsLoad argument line → ¬OnLiteral (argument ++ '\n' :: after) →
        returns (before ++ [line]) ≤ byteLength argument →
        ∃ construct number,
          refusal? policy .javaScript source = some (.dynamicCode construct number)) ∧
    (returns before = 0 →
      Untorn code ((before ++ [line]).map stripReturn) ∧
      takeBytes (byteLength (stripReturn line)) (dropBytes (offset (before.map stripReturn)) code) =
        stripReturn line ∧
      ∀ argument, CallsLoad argument line → ¬OnLiteral (argument ++ '\n' :: after) →
        ∃ construct number,
          refusal? policy .javaScript source = some (.dynamicCode construct number)) := by
  have hrefused : Untorn code ((before ++ [line]).map stripReturn) → ∀ argument,
      CallsLoad argument line → ¬OnLiteral (argument ++ '\n' :: after) →
      returns (before ++ [line]) ≤ byteLength argument → ∃ construct number,
        refusal? policy .javaScript source = some (.dynamicCode construct number) := by
    intro huntorn argument hcall hliteral hlength
    have hvisit := List.mem_of_getElem? (h.visits_getElem? huntorn)
    have hload := lineConstruct?_isSome h huntorn hcall hlength hliteral
    have hfound := construct?_isSome hvisit hload 1
    obtain ⟨⟨construct, number⟩, hconstruct⟩ := Option.isSome_iff_exists.mp hfound
    refine ⟨construct, number, ?_⟩
    simp only [refusal?, dynamicCode?, hcode, hconstruct]
  refine ⟨offset_add_returns before, h.offset_add_le, fun huntorn => ⟨h.visits_getElem? huntorn,
    hrefused huntorn⟩, fun hreturns => ⟨h.untorn hreturns, h.takeBytes_offset hreturns, ?_⟩⟩
  intro argument hcall hliteral
  exact hrefused (h.untorn hreturns) argument hcall hliteral (hcall.returns_le hreturns)

/-- A comment, a line end of two characters and letters of two bytes before a load; and a load on a
line that the guard takes to begin a byte too early. -/
theorem looks_at_third :
    (∃ construct number, refusal? {} .javaScript "// é\nx = 'é';\r\nrequire ( 'a' + x)\n" =
      some (.dynamicCode construct number)) ∧
    ∃ construct number, refusal? {} .javaScript "a = 1;\r// b\nimport(x)\n" =
      some (.dynamicCode construct number) := by
  constructor
  · have hline : IsLine ["".toList, "x = 'é';".toList] "require ( 'a' + x)".toList []
        "\nx = 'é';\nrequire ( 'a' + x)\n".toList :=
      ⟨by decide +kernel, by decide +kernel, by decide +kernel⟩
    have hcall : CallsLoad " 'a' + x)".toList
        ([] ++ ("require".toList ++ (" ".toList ++ '(' :: " 'a' + x)".toList))) :=
      .call (.inl rfl) nofun (List.all_eq_true.mp (by decide))
    obtain ⟨-, -, -, hplace⟩ := looks_at_lines {} "// é\nx = 'é';\r\nrequire ( 'a' + x)\n"
      (by decide +kernel) hline
    obtain ⟨-, -, hrefused⟩ := hplace (by decide +kernel)
    exact hrefused _ hcall (by decide +kernel)
  · have hline : IsLine ["a = 1;\r".toList] "import(x)".toList [] "a = 1;\r\nimport(x)\n".toList :=
      ⟨by decide +kernel, by decide +kernel, by decide +kernel⟩
    have hcall : CallsLoad "x)".toList ([] ++ ("import".toList ++ ([] ++ '(' :: "x)".toList))) :=
      .call (.inr rfl) nofun (List.forall_mem_nil _)
    obtain ⟨-, -, hlag, -⟩ := looks_at_lines {} "a = 1;\r// b\nimport(x)\n"
      (by decide +kernel) hline
    obtain ⟨-, hrefused⟩ := hlag (by decide +kernel)
    exact hrefused _ hcall (by decide +kernel) (by decide +kernel)

/-- After a comment behind a carriage return the guard looks at each line one byte too early, and
misses the end of a call that ends its line. There may be half of a character. -/
theorem hidden_by_returns :
    withoutComments .javaScript "a = 1;\r// b\nrequire(\nx)\n".toList =
      unlines ["a = 1;\r".toList, "require(".toList, "x)".toList] ∧
    offset ["a = 1;".toList] = 7 ∧ byteLength (unlines ["a = 1;\r".toList]) = 8 ∧
    refusal? {} .javaScript "a = 1;\r// b\nrequire(\nx)\n" = none ∧
    ¬OnLiteral "\nx)\n".toList ∧
    withoutComments .javaScript "\r\r\né\n".toList = unlines ["\r".toList, "é".toList] ∧
    isBoundary (offset ["".toList] + byteLength "é".toList) "\r\né\n".toList = false := by
  decide +kernel

end Flowline.Guard.ScriptText
