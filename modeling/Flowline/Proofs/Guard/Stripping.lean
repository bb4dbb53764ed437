import Flowline.Proofs.Guard.Reading

/-!
# Leaving out comments

A scanner is a reading that tells which characters are in comments; what is left of a text are the
others. The guard goes line by line, with a state carried from line to line, and is a scanner all
the same. It leaves what another scanner leaves of every text in which the two never depart from
each other.
-/
namespace Flowline.Guard

open Text

/-- A reading that tells comments from code. -/
structure Scanner (Mode : Type) extends Reading Mode where
  /-- The character, met in this mode and before that character, is in a comment. -/
  hides : Mode → Char → Option Char → Bool
  /-- Only a slash or a star makes the character before it the beginning of a comment. -/
  hides_before : ∀ m c {d}, d ≠ '/' → d ≠ '*' → hides m c (some d) = hides m c none

/-- The line feed that the last line lacks. -/
def lastFeed (s : List Char) : List Char := if s = [] ∨ s.getLast? = some '\n' then [] else ['\n']

theorem lastFeed_append_feed (line rest : List Char) :
    lastFeed (line ++ '\n' :: rest) = lastFeed rest := by
  cases rest with
  | nil => simp [lastFeed]
  | cons c rest => simp [lastFeed, List.getLast?_append, List.getLast?_cons_cons]

theorem lastFeed_of_not_mem {line : List Char} (hne : line ≠ []) (h : '\n' ∉ line) :
    lastFeed line = ['\n'] := by
  refine if_neg ?_
  rintro (rfl | hlast)
  · exact hne rfl
  · exact h (List.mem_of_getLast? hlast)

namespace Scanner

variable {Mode : Type} (S : Scanner Mode)

/-- What is left of one character. A carriage return before a line feed belongs to it. -/
def shown (m : Mode) (c : Char) (following : Option Char) : List Char :=
  if c = '\n' then [c]
  else if c = '\r' ∧ following = some '\n' ∨ S.hides m c following = true then []
  else [c]

/-- What stands outside of comments, with a line feed for each line feed and for each carriage
return with one. -/
def outside (m : Mode) : List Char → List Char
  | [] => []
  | c :: rest => S.shown m c rest.head? ++ outside (S.next m c) rest

/-- What is left of a text without its comments: lines that all have their ends. -/
def uncommented (m : Mode) (s : List Char) : List Char := S.outside m s ++ lastFeed s

@[simp] theorem outside_nil (m : Mode) : S.outside m [] = [] := rfl
@[simp] theorem outside_cons (m : Mode) (c : Char) (rest : List Char) :
    S.outside m (c :: rest) = S.shown m c rest.head? ++ S.outside (S.next m c) rest := rfl

@[simp] theorem shown_feed (m : Mode) (following : Option Char) :
    S.shown m '\n' following = ['\n'] :=
  if_pos rfl

@[simp] theorem shown_return (m : Mode) : S.shown m '\r' (some '\n') = [] := rfl

/-- A character of a line is left if it is not in a comment. -/
theorem shown_of_ne (m : Mode) {c : Char} (hc : c ≠ '\n') {following : Option Char}
    (h : following ≠ some '\n') :
    S.shown m c following = if S.hides m c following = true then [] else [c] := by
  simp [shown, hc, h]

/-- A text that goes on with another is left as it is alone, if the two make no beginning of a
comment and no end of a line together. -/
theorem outside_append (m : Mode) {s t : List Char} {d : Char} (ht : t.head? = some d)
    (hslash : d ≠ '/') (hstar : d ≠ '*') (hapart : s.getLast? = some '\r' → d ≠ '\n') :
    S.outside m (s ++ t) = S.outside m s ++ S.outside (S.scan m s) t := by
  induction s generalizing m with
  | nil => rfl
  | cons c s ih =>
    cases s with
    | nil =>
      have hpair : ¬(c = '\r' ∧ d = '\n') := fun h => hapart (by rw [h.1]; rfl) h.2
      have hshown : S.shown m c (some d) = S.shown m c none := by
        simp [shown, S.hides_before m c hslash hstar, hpair]
      simp [ht, hshown]
    | cons e s =>
      have hrest := ih (S.next m c) (by rwa [List.getLast?_cons_cons] at hapart)
      have hhead : (e :: s ++ t).head? = (e :: s).head? := rfl
      rw [List.cons_append, outside_cons, hrest, hhead, ← List.append_assoc]
      rfl

/-- In a mode that goes on over a line and hides its characters the line is left out. -/
theorem outside_of_hides {m : Mode} (hnext : ∀ {c}, c ≠ '\n' → S.next m c = m)
    (hhides : ∀ {c}, c ≠ '\n' → ∀ following, S.hides m c following = true) {line : List Char}
    (h : '\n' ∉ line) : S.outside m line = [] ∧ S.scan m line = m := by
  induction line with
  | nil => exact ⟨rfl, rfl⟩
  | cons c line ih =>
    simp only [List.mem_cons, not_or] at h
    have hc : c ≠ '\n' := Ne.symm h.1
    rw [outside_cons, Reading.scan_cons, hnext hc, (ih h.2).1, (ih h.2).2]
    simp [shown, hc, hhides hc]

/-- What is left of a whole line, and how it goes on. -/
theorem outside_line (h : ∀ m, S.next (S.next m '\r') '\n' = S.next m '\n') (m : Mode)
    (line rest : List Char) : S.outside m (line ++ '\n' :: rest) =
      S.outside m (stripReturn line) ++
        '\n' :: S.outside (S.next (S.scan m (stripReturn line)) '\n') rest := by
  by_cases hlast : line.getLast? = some '\r'
  · obtain ⟨init, rfl⟩ := List.getLast?_eq_some_iff.mp hlast
    rw [stripReturn, if_pos hlast, List.dropLast_concat, List.append_assoc,
      S.outside_append m rfl (by decide) (by decide) fun _ => by decide, List.singleton_append,
      outside_cons, outside_cons, h]
    simp
  · rw [stripReturn, if_neg hlast, S.outside_append m rfl (by decide) (by decide)
      fun h => absurd h hlast, outside_cons, shown_feed, List.singleton_append]

/-! ### Line by line -/

/-- The guard, with the states that the modes have for it, is the scanner. -/
structure Runs {σ : Type} (step : σ → List Char → List Char × σ) (state : Mode → σ)
    (starts : Mode → Bool) : Prop where
  line : ∀ {m line}, starts m = true → '\n' ∉ line →
    step (state m) line = (S.outside m line, state (S.next (S.scan m line) '\n'))
  starts_next : ∀ m, starts (S.next m '\n') = true
  return_feed : ∀ m, S.next (S.next m '\r') '\n' = S.next m '\n'

/-- Line by line the guard leaves of a text what the scanner leaves of it. -/
theorem Runs.unlines_codeLines {S : Scanner Mode} {σ : Type}
    {step : σ → List Char → List Char × σ} {state : Mode → σ} {starts : Mode → Bool}
    (h : S.Runs step state starts) {m : Mode} (hm : starts m = true) (s : List Char) :
    unlines (codeLines step (state m) (lineChars s)) = S.uncommented m s := by
  obtain ⟨ls, rest, rfl, hls, hrest⟩ := exists_unlines s
  induction ls generalizing m with
  | nil =>
    by_cases hne : rest = []
    · subst hne
      rfl
    · change unlines (codeLines step (state m) (lineChars rest)) = S.uncommented m rest
      rw [lineChars_of_not_mem hrest hne, codeLines, h.line hm hrest, uncommented,
        lastFeed_of_not_mem hne hrest, unlines_cons]
      rfl
  | cons l ls ih =>
    obtain ⟨hl, hls⟩ := List.forall_mem_cons.mp hls
    have hstrip : '\n' ∉ stripReturn l := fun hmem => hl ((isPrefix_stripReturn l).subset hmem)
    rw [unlines_cons, List.append_assoc, List.cons_append, lineChars_append_cons hl, codeLines,
      h.line hm hstrip, unlines_cons, ih (h.starts_next _) hls, uncommented, uncommented,
      lastFeed_append_feed, S.outside_line h.return_feed, List.append_assoc, List.cons_append]

/-! ### Two scanners -/

/-- Where a scanner `G` may take another way than `R`: at a line feed after which `R` is in a mode
that `G` does not keep over the end of a line, or at another character in a mode of `R`. -/
structure Departs (G R : Scanner Mode) (lost : Mode → Bool) (parts : Mode → Char → Bool) :
    Prop where
  next_eq : ∀ {m c}, c ≠ '\n' → parts m c = false → G.next m c = R.next m c
  hides_eq : ∀ {m c}, c ≠ '\n' → parts m c = false → G.hides m c = R.hides m c
  feed_eq : ∀ {m}, lost (R.next m '\n') = false → G.next m '\n' = R.next m '\n'
  return_feed_eq : ∀ {m}, lost (R.next (R.next m '\r') '\n') = false →
    G.next (G.next m '\r') '\n' = R.next (R.next m '\r') '\n'

/-- The scanner meets no character where another departs from it. -/
def clear (lost : Mode → Bool) (parts : Mode → Char → Bool) (m : Mode) : List Char → Bool
  | [] => true
  | c :: rest =>
    (if c = '\n' then !lost (S.next m c)
      else (c == '\r' && rest.head? == some '\n') || !parts m c) &&
      clear lost parts (S.next m c) rest

/-- What a scanner reads where another departs from it: the end of a line, or one character. -/
inductive Parting (lost : Mode → Bool) (parts : Mode → Char → Bool) (m : Mode) :
    List Char → Prop
  | feed (h : lost (S.next m '\n') = true) : Parting lost parts m ['\n']
  | return_feed (h : lost (S.next (S.next m '\r') '\n') = true) : Parting lost parts m ['\r', '\n']
  | other {c : Char} (hc : c ≠ '\n') (h : parts m c = true) : Parting lost parts m [c]

variable {S} {G R : Scanner Mode} {lost : Mode → Bool} {parts : Mode → Char → Bool}

/-- Induction on a text, whole line ends at a time. -/
@[elab_as_elim] theorem ends_induct {P : Mode → List Char → Prop} (nil : ∀ m, P m [])
    (feed : ∀ m rest, P (S.next m '\n') rest → P m ('\n' :: rest))
    (return_feed : ∀ m rest, P (S.next (S.next m '\r') '\n') rest → P m ('\r' :: '\n' :: rest))
    (other : ∀ m c rest, c ≠ '\n' → ¬(c = '\r' ∧ rest.head? = some '\n') → P (S.next m c) rest →
      P m (c :: rest)) (m : Mode) (s : List Char) : P m s := by
  induction hn : s.length using Nat.strongRecOn generalizing m s with
  | ind n ih =>
    subst hn
    cases s with
    | nil => exact nil m
    | cons c rest =>
      have hrest : rest.length < (c :: rest).length := Nat.lt_succ_self _
      by_cases hfeed : c = '\n'
      · exact hfeed ▸ feed m rest (ih rest.length hrest _ rest rfl)
      by_cases hpair : c = '\r' ∧ rest.head? = some '\n'
      · obtain ⟨rfl, hhead⟩ := hpair
        obtain ⟨rest, rfl⟩ := List.head?_eq_some_iff.mp hhead
        have hmore : rest.length < ('\r' :: '\n' :: rest).length := by
          rw [List.length_cons, List.length_cons]
          omega
        exact return_feed m rest (ih rest.length hmore _ rest rfl)
      · exact other m c rest hfeed hpair (ih rest.length hrest _ rest rfl)

section clear

variable (m : Mode) (rest : List Char)

theorem clear_feed : S.clear lost parts m ('\n' :: rest) =
    (!lost (S.next m '\n') && S.clear lost parts (S.next m '\n') rest) := rfl

theorem clear_return_feed : S.clear lost parts m ('\r' :: '\n' :: rest) =
    (!lost (S.next (S.next m '\r') '\n') &&
      S.clear lost parts (S.next (S.next m '\r') '\n') rest) := rfl

theorem clear_other {c : Char} (hc : c ≠ '\n') (hpair : ¬(c = '\r' ∧ rest.head? = some '\n')) :
    S.clear lost parts m (c :: rest) =
      (!parts m c && S.clear lost parts (S.next m c) rest) := by
  have hpair : (c == '\r' && rest.head? == some '\n') = false := by simpa using hpair
  rw [clear, if_neg hc, hpair, Bool.false_or]

end clear

/-- Induction on a text without a parting. -/
@[elab_as_elim] theorem clear_induct {P : Mode → List Char → Prop} (nil : ∀ m, P m [])
    (feed : ∀ m rest, lost (S.next m '\n') = false → P (S.next m '\n') rest → P m ('\n' :: rest))
    (return_feed : ∀ m rest, lost (S.next (S.next m '\r') '\n') = false →
      P (S.next (S.next m '\r') '\n') rest → P m ('\r' :: '\n' :: rest))
    (other : ∀ m c rest, c ≠ '\n' → parts m c = false → P (S.next m c) rest → P m (c :: rest))
    (m : Mode) (s : List Char) (h : S.clear lost parts m s = true) : P m s := by
  revert h
  refine ends_induct (S := S) (fun m _ => nil m) ?feed ?return_feed ?other m s
  case feed =>
    intro m rest ih h
    rw [clear_feed, Bool.and_eq_true, Bool.not_eq_true'] at h
    exact feed m rest h.1 (ih h.2)
  case return_feed =>
    intro m rest ih h
    rw [clear_return_feed, Bool.and_eq_true, Bool.not_eq_true'] at h
    exact return_feed m rest h.1 (ih h.2)
  case other =>
    intro m c rest hc hpair ih h
    rw [clear_other m rest hc hpair, Bool.and_eq_true, Bool.not_eq_true'] at h
    exact other m c rest hc h.1 (ih h.2)

theorem getLast?_of_cons {c d : Char} {s : List Char} (hc : c ≠ d)
    (h : (c :: s).getLast? = some d) : s.getLast? = some d := by
  cases s with
  | nil => exact absurd (Option.some.inj h) hc
  | cons e s => rwa [List.getLast?_cons_cons] at h

/-- A text that is not clear has a first parting. -/
theorem exists_parting (m : Mode) (s : List Char) (h : S.clear lost parts m s = false) :
    ∃ before e rest, s = before ++ e ++ rest ∧ S.clear lost parts m before = true ∧
      S.Parting lost parts (S.scan m before) e ∧ (before.getLast? = some '\r' → e ≠ ['\n']) := by
  revert h
  refine ends_induct (S := S) (fun _ => nofun) ?feed ?return_feed ?other m s
  case feed =>
    intro m rest ih h
    cases hlost : lost (S.next m '\n') with
    | true => exact ⟨[], ['\n'], rest, rfl, rfl, .feed hlost, nofun⟩
    | false =>
      rw [clear_feed, hlost, Bool.not_false, Bool.true_and] at h
      obtain ⟨before, e, rest, rfl, hbefore, he, hapart⟩ := ih h
      refine ⟨'\n' :: before, e, rest, rfl, ?_, he, fun hlast =>
        hapart (getLast?_of_cons (by decide) hlast)⟩
      rw [clear_feed, hlost, hbefore]
      rfl
  case return_feed =>
    intro m rest ih h
    cases hlost : lost (S.next (S.next m '\r') '\n') with
    | true => exact ⟨[], ['\r', '\n'], rest, rfl, rfl, .return_feed hlost, nofun⟩
    | false =>
      rw [clear_return_feed, hlost, Bool.not_false, Bool.true_and] at h
      obtain ⟨before, e, rest, rfl, hbefore, he, hapart⟩ := ih h
      refine ⟨'\r' :: '\n' :: before, e, rest, rfl, ?_, he, fun hlast => hapart ?_⟩
      · rw [clear_return_feed, hlost, hbefore]
        rfl
      · rw [List.getLast?_cons_cons] at hlast
        exact getLast?_of_cons (by decide) hlast
  case other =>
    intro m c rest hc hpair ih h
    cases hparts : parts m c with
    | true => exact ⟨[], [c], rest, rfl, rfl, .other hc hparts, nofun⟩
    | false =>
      rw [clear_other m rest hc hpair, hparts, Bool.not_false, Bool.true_and] at h
      obtain ⟨before, e, rest, rfl, hbefore, he, hapart⟩ := ih h
      refine ⟨c :: before, e, rest, rfl, ?_, he, fun hlast => ?_⟩
      · rw [clear, if_neg hc, hparts, hbefore]
        simp
      · cases before with
        | nil =>
          rintro rfl
          exact hpair ⟨Option.some.inj hlast, rfl⟩
        | cons d before => exact hapart (by rwa [List.getLast?_cons_cons] at hlast)

namespace Departs

variable (h : Departs G R lost parts) {m : Mode} {s : List Char}

include h

/-- Of a text without a parting two scanners leave the same. -/
theorem outside_eq (hs : R.clear lost parts m s = true) : G.outside m s = R.outside m s := by
  refine clear_induct (fun m => rfl) ?feed ?return_feed ?other m s hs
  case feed =>
    intro m rest hlost ih
    rw [outside_cons, outside_cons, shown_feed, shown_feed, h.feed_eq hlost, ih]
  case return_feed =>
    -- between the two characters the modes may differ
    intro m rest hlost ih
    simp [h.return_feed_eq hlost, ih]
  case other =>
    intro m c rest hc hparts ih
    rw [outside_cons, outside_cons, h.next_eq hc hparts, ih, shown, shown, h.hides_eq hc hparts]

/-- After a text without a parting two scanners are in the same mode. -/
theorem scan_eq (hs : R.clear lost parts m s = true) : G.scan m s = R.scan m s := by
  refine clear_induct (fun m => rfl) ?feed ?return_feed ?other m s hs
  case feed =>
    intro m rest hlost ih
    rw [Reading.scan_cons, Reading.scan_cons, h.feed_eq hlost, ih]
  case return_feed =>
    intro m rest hlost ih
    simp only [Reading.scan_cons, h.return_feed_eq hlost, ih]
  case other =>
    intro m c rest hc hparts ih
    rw [Reading.scan_cons, Reading.scan_cons, h.next_eq hc hparts, ih]

/-- Of a text without a parting two scanners leave the same, with the ends of its lines. -/
theorem uncommented_eq (hs : R.clear lost parts m s = true) :
    G.uncommented m s = R.uncommented m s := by
  rw [uncommented, h.outside_eq hs, uncommented]

/-- What is left out after a parting alone is left out after any text before it. -/
theorem outside_lt (hplain : ∀ m, parts m '/' = false ∧ parts m '*' = false)
    (hs : R.clear lost parts m s = true) {e t : List Char}
    (he : R.Parting lost parts (R.scan m s) e) (hapart : s.getLast? = some '\r' → e ≠ ['\n'])
    (hlt : (G.outside (R.scan m s) (e ++ t)).length < (R.outside (R.scan m s) (e ++ t)).length) :
    (G.outside m (s ++ (e ++ t))).length < (R.outside m (s ++ (e ++ t))).length := by
  obtain ⟨d, hd, hslash, hstar, hreturn⟩ : ∃ d, (e ++ t).head? = some d ∧ d ≠ '/' ∧ d ≠ '*' ∧
      (s.getLast? = some '\r' → d ≠ '\n') := by
    cases he with
    | feed => exact ⟨'\n', rfl, by decide, by decide, fun hlast => absurd rfl (hapart hlast)⟩
    | return_feed => exact ⟨'\r', rfl, by decide, by decide, fun _ => by decide⟩
    | @other c hc hparts =>
      refine ⟨c, rfl, ?_, ?_, fun _ => hc⟩
      · rintro rfl
        simp [hplain] at hparts
      · rintro rfl
        simp [hplain] at hparts
  rw [G.outside_append m hd hslash hstar hreturn, R.outside_append m hd hslash hstar hreturn,
    h.outside_eq hs, h.scan_eq hs]
  simp only [List.length_append]
  omega

/-- Of a text that is not clear there is a first parting. If after every parting alone a text,
itself without one, can have code left out, so it can after what stands before. -/
theorem exists_lt (hplain : ∀ m, parts m '/' = false ∧ parts m '*' = false)
    (hhidden : ∀ {m e}, R.Parting lost parts m e → ∃ t, t.head? ≠ some '\n' ∧
      R.clear lost parts (R.scan m e) t = true ∧
      (G.outside m (e ++ t)).length < (R.outside m (e ++ t)).length)
    (hs : R.clear lost parts m s = false) :
    ∃ before e rest after, s = before ++ e ++ rest ∧ R.clear lost parts m before = true ∧
      R.Parting lost parts (R.scan m before) e ∧ after.head? ≠ some '\n' ∧
      R.clear lost parts (R.scan m (before ++ e)) after = true ∧
      (G.uncommented m (before ++ e ++ after)).length <
        (R.uncommented m (before ++ e ++ after)).length := by
  obtain ⟨before, e, rest, hsplit, hbefore, he, hapart⟩ := exists_parting m s hs
  obtain ⟨after, hhead, hclear, hlt⟩ := hhidden he
  refine ⟨before, e, rest, after, hsplit, hbefore, he, hhead, by rwa [Reading.scan_append], ?_⟩
  have hlonger := h.outside_lt hplain hbefore he hapart hlt
  rw [List.append_assoc, uncommented, uncommented, List.length_append, List.length_append]
  exact Nat.add_lt_add_right hlonger _

end Departs

end Scanner
end Flowline.Guard
