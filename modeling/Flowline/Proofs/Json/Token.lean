import Flowline.Json.Printer
import Flowline.Json.Reader
import Flowline.Proofs.Data.Value
import Flowline.Proofs.Decimal.Digits

/-!
# Texts and numbers in JSON

A quoted text is read back, whatever it contains, and so is an integer of a word. A numeral ends where
the text that follows cannot go on with it. A quoted text is also a literal of Python and JavaScript
for the same text.
-/
namespace Flowline.Json

/-! ### Quoted texts -/

/-- The three ways to write a character. -/
inductive Escapes (c : Char) : List Char → Prop
  | letter {e : Char} : unescape? e = some c → e ≠ 'u' → Escapes c ['\\', e]
  | code : c.toNat < 32 →
    Escapes c ['\\', 'u', '0', '0', hexDigit (c.toNat / 16), hexDigit (c.toNat % 16)]
  | plain : c ≠ '"' → c ≠ '\\' → 32 ≤ c.toNat → Escapes c [c]

theorem escapes_escapeChar (c : Char) : Escapes c (escapeChar c) := by
  have hofNat : ∀ n, c.toNat = n → Char.ofNat n = c := fun n h => h ▸ Char.ofNat_toNat c
  unfold escapeChar
  split
  · rename_i h
    subst h
    exact .letter (e := '"') rfl (by decide)
  split
  · rename_i h
    subst h
    exact .letter (e := '\\') rfl (by decide)
  split
  · rename_i h
    subst h
    exact .letter (e := 'n') rfl (by decide)
  split
  · rename_i h
    subst h
    exact .letter (e := 'r') rfl (by decide)
  split
  · rename_i h
    subst h
    exact .letter (e := 't') rfl (by decide)
  split
  · rename_i h
    exact .letter (e := 'b') (congrArg some (hofNat 8 h)) (by decide)
  split
  · rename_i h
    exact .letter (e := 'f') (congrArg some (hofNat 12 h)) (by decide)
  split
  · rename_i h
    exact .code h
  · rename_i hquote hslash _ _ _ _ _ hcontrol
    exact .plain hquote hslash (Nat.not_lt.mp hcontrol)

theorem hex4?_control : ∀ n < 32, hex4? '0' '0' (hexDigit (n / 16)) (hexDigit (n % 16)) = some n := by
  decide

/-- A written character is read as the character. -/
theorem Escapes.textBody {c : Char} {s : List Char} (h : Escapes c s) (acc rest : List Char) :
    textBody acc (s ++ rest) = textBody (c :: acc) rest := by
  cases h with
  | @letter e hletter hu =>
    simp only [List.cons_append, List.nil_append]
    rw [Json.textBody]
    · rw [hletter]
    · rintro _ _ _ _ _ rfl
      exact absurd rfl hu
  | code hcontrol =>
    have hlow : (decide (c.toNat < 0xD800) || decide (0xE000 ≤ c.toNat)) = true := by
      simp
      omega
    simp only [List.cons_append, List.nil_append]
    rw [Json.textBody, hex4?_control _ hcontrol]
    simp only [hlow, if_true, Char.ofNat_toNat]
  | plain hquote hslash hcontrol =>
    simp only [List.cons_append, List.nil_append]
    rw [Json.textBody]
    · simp [hslash, Nat.not_lt.mpr hcontrol]
    · exact hquote
    · rintro _ _ _ _ _ rfl
      exact absurd rfl hslash
    · rintro _ _ rfl
      exact absurd rfl hslash

theorem textBody_escaped (s acc rest : List Char) :
    textBody acc (s.flatMap escapeChar ++ '"' :: rest) = some (acc.reverse ++ s, rest) := by
  induction s generalizing acc with
  | nil => simp [textBody]
  | cons c s ih =>
    rw [List.flatMap_cons, List.append_assoc, (escapes_escapeChar c).textBody, ih]
    simp

/-- A quoted text is read back. -/
theorem textBody_quoted (s rest : List Char) :
    textBody [] (s.flatMap escapeChar ++ '"' :: rest) = some (s, rest) :=
  textBody_escaped s [] rest

/-- Control characters are never written as they are. -/
theorem Escapes.no_control {c : Char} {s : List Char} (h : Escapes c s) : ∀ d ∈ s, 32 ≤ d.toNat := by
  have hdigit : ∀ n < 16, 32 ≤ (hexDigit n).toNat := by decide
  cases h with
  | @letter e hletter =>
    have hcontrol : 32 ≤ e.toNat := by
      unfold unescape? at hletter
      split at hletter <;> first | decide | cases hletter
    simpa using hcontrol
  | code hcontrol => simpa using ⟨hdigit _ (by omega), hdigit _ (by omega)⟩
  | plain _ _ hcontrol => simpa using hcontrol

theorem Escapes.no_feed {c : Char} {s : List Char} (h : Escapes c s) : '\n' ∉ s :=
  fun hfeed => absurd (h.no_control _ hfeed) (by decide)

theorem quoteChars_no_feed (s : List Char) : '\n' ∉ quoteChars s := by
  simp only [quoteChars, List.cons_append, List.mem_cons, List.mem_append, List.mem_flatMap,
    List.not_mem_nil, or_false, not_or, not_exists, not_and]
  exact ⟨by decide, fun c _ => (escapes_escapeChar c).no_feed, by decide⟩

/-! ### Numerals by their parts -/

/-- What follows cannot belong to a value before it. -/
def endsValue (c : Char) : Bool := isJsonBlank c || c == ',' || c == ']' || c == '}'

def Ends (rest : List Char) : Prop := ∀ c, rest.head? = some c → endsValue c = true

theorem ends_nil : Ends [] := nofun

theorem ends_cons {c : Char} {rest : List Char} (h : endsValue c = true) : Ends (c :: rest) :=
  fun _ hd => Option.some.inj hd ▸ h

theorem endsValue_cases {c : Char} (h : endsValue c = true) :
    c.isDigit = false ∧ c ≠ '.' ∧ c ≠ 'e' ∧ c ≠ 'E' ∧ c ≠ '+' ∧ c ≠ '-' := by
  simp only [endsValue, isJsonBlank, Bool.or_eq_true, decide_eq_true_eq, beq_iff_eq] at h
  obtain (((((rfl | rfl) | rfl) | rfl) | rfl) | rfl) | rfl := h <;> decide

/-- A text that does not begin with some character does not begin with it when it goes on after the
end of a value. -/
theorem Ends.begins {s rest : List Char} (h : Ends rest) {c : Char} (hc : endsValue c = false)
    (hs : ∀ r, s = c :: r → False) (r : List Char) (hr : s ++ rest = c :: r) : False := by
  cases s with
  | nil =>
    have hend : endsValue c = true := h c (by rw [← List.nil_append rest, hr]; rfl)
    exact Bool.false_ne_true (hc.symm.trans hend)
  | cons d s => exact hs s (by rw [(List.cons.inj hr).1])

/-- A reader that leaves the same to read when the text goes on after the end of a value. -/
def Prolongs (one : Reader α) : Prop :=
  ∀ {s : List Char} {a : α} {left rest : List Char}, one s = some (a, left) → Ends rest →
    one (s ++ rest) = some (a, left ++ rest)

theorem spanDigits_append (s : List Char) {rest : List Char} (h : Ends rest) :
    Decimal.spanDigits (s ++ rest) =
      ((Decimal.spanDigits s).1, (Decimal.spanDigits s).2 ++ rest) := by
  simp only [Decimal.spanDigits, List.span_eq_takeWhile_dropWhile]
  induction s with
  | nil =>
    cases rest with
    | nil => rfl
    | cons c rest => simp [(endsValue_cases (h c rfl)).1]
  | cons c s ih =>
    simp only [Prod.mk.injEq] at ih
    by_cases hc : c.isDigit = true
    · simp [hc, ih.1, ih.2]
    · simp [hc]

theorem sign_append (s : List Char) {rest : List Char} (h : Ends rest) :
    sign (s ++ rest) = ((sign s).1, (sign s).2 ++ rest) := by
  cases hs : s with
  | nil =>
    rw [sign]
    · rfl
    · exact h.begins (s := []) rfl nofun
  | cons c r =>
    by_cases hc : c = '-'
    · subst hc
      rfl
    · have hminus : ∀ tail, c :: r = '-' :: tail → False := fun _ ht => hc (List.cons.inj ht).1
      rw [sign, sign]
      · exact hminus
      · exact h.begins rfl hminus

theorem powerSign_append (s : List Char) {rest : List Char} (h : Ends rest) :
    Decimal.sign (s ++ rest) = ((Decimal.sign s).1, (Decimal.sign s).2 ++ rest) := by
  by_cases hminus : ∃ r, s = '-' :: r
  · obtain ⟨r, rfl⟩ := hminus
    rfl
  by_cases hplus : ∃ r, s = '+' :: r
  · obtain ⟨r, rfl⟩ := hplus
    rfl
  · simp only [not_exists] at hminus hplus
    rw [Decimal.sign, Decimal.sign]
    · exact hminus
    · exact hplus
    · exact h.begins rfl hminus
    · exact h.begins rfl hplus

theorem whole?_prolongs : Prolongs whole? := by
  intro s digits left rest hs h
  unfold whole? at hs
  split at hs
  · rename_i r
    split at hs
    · cases hs
    · rename_i hr
      have hrest : ¬((r ++ rest).head?.map Char.isDigit).getD false = true := by
        cases r with
        | nil =>
          cases rest with
          | nil => exact hr
          | cons c rest => simp [(endsValue_cases (h c rfl)).1]
        | cons c r => exact hr
      cases hs
      rw [List.cons_append, whole?, if_neg hrest]
  · rename_i hzero
    have hlonger := spanDigits_append s h
    generalize Decimal.spanDigits s = p at hs hlonger
    obtain ⟨_ | ⟨d, ds⟩, r⟩ := p
    · cases hs
    · cases hs
      rw [whole?, hlonger]
      exact h.begins rfl hzero

theorem places?_prolongs : Prolongs places? := by
  intro s digits left rest hs h
  unfold places? at hs
  split at hs
  · rename_i r
    have hlonger := spanDigits_append r h
    generalize Decimal.spanDigits r = p at hs hlonger
    obtain ⟨_ | ⟨d, ds⟩, r⟩ := p
    · cases hs
    · cases hs
      rw [List.cons_append, places?, hlonger]
  · rename_i hpoint
    cases hs
    rw [places?]
    exact h.begins rfl hpoint

theorem exponent?_prolongs : Prolongs Decimal.exponent? := by
  intro s e left rest hs h
  unfold Decimal.exponent? at hs ⊢
  rw [powerSign_append s h]
  generalize Decimal.sign s = p at hs ⊢
  obtain ⟨neg, r⟩ := p
  have hlonger := spanDigits_append r h
  simp only at hs ⊢
  generalize Decimal.spanDigits r = p at hs hlonger
  obtain ⟨_ | ⟨d, ds⟩, r⟩ := p
  · cases hs
  · cases hs
    rw [hlonger]

theorem power?_prolongs : Prolongs power? := by
  intro s e left rest hs h
  unfold power? at hs
  split at hs
  · obtain ⟨p, hp, hleft⟩ := Option.map_eq_some_iff.mp hs
    cases hleft
    rw [List.cons_append, power?, exponent?_prolongs hp h]
    rfl
  · obtain ⟨p, hp, hleft⟩ := Option.map_eq_some_iff.mp hs
    cases hleft
    rw [List.cons_append, power?, exponent?_prolongs hp h]
    rfl
  · rename_i hlower hupper
    cases hs
    rw [power?]
    · exact h.begins rfl hlower
    · exact h.begins rfl hupper

theorem number?_prolongs : Prolongs number? := by
  intro s v left rest hs h
  simp only [number?, Option.bind_eq_bind, Option.pure_def, Option.bind_eq_some_iff] at hs
  obtain ⟨⟨whole, r₁⟩, h₁, ⟨frac, r₂⟩, h₂, ⟨exp, r₃⟩, h₃, w, hw, hleft⟩ := hs
  cases hleft
  simp only [number?, sign_append s h, whole?_prolongs h₁ h, places?_prolongs h₂ h,
    power?_prolongs h₃ h, hw, Option.bind_eq_bind, Option.bind_some, Option.pure_def]

/-! ### Integers -/

/-- Only zero begins with a zero. -/
theorem head_toDigits {n : Nat} {tail : List Char} (h : Nat.toDigits 10 n = '0' :: tail) :
    n = 0 := by
  induction n using Nat.strongRecOn generalizing tail with
  | ind n ih =>
    by_cases hn : n < 10
    · rw [Nat.toDigits_of_lt_base hn] at h
      have hzero : ∀ m < 10, Nat.digitChar m = '0' → m = 0 := by decide
      exact hzero n hn (List.cons.inj h).1
    · rw [Nat.toDigits_of_base_le (by decide) (Nat.not_lt.mp hn)] at h
      obtain ⟨d, ds, hd⟩ := List.exists_cons_of_ne_nil (Nat.toDigits_ne_nil (n := n / 10) (b := 10))
      rw [hd, List.cons_append] at h
      have hsmall := ih (n / 10) (by omega) (hd.trans (by rw [(List.cons.inj h).1]))
      omega

theorem whole?_toDigits (n : Nat) :
    whole? (Nat.toDigits 10 n) = some (Nat.toDigits 10 n, []) := by
  by_cases hn : n = 0
  · subst hn
    rfl
  · have hspan := Decimal.spanDigits_toDigits n
    rw [whole?, hspan]
    · cases hd : Nat.toDigits 10 n with
      | nil => exact absurd hd Nat.toDigits_ne_nil
      | cons d ds => rfl
    · exact fun r hr => hn (head_toDigits hr)

theorem sign_toDigits (n : Nat) : sign (Nat.toDigits 10 n) = (false, Nat.toDigits 10 n) := by
  rw [sign]
  intro r hr
  have hdigit : '-'.isDigit = true := Decimal.isDigit_toDigits (n := n) (hr ▸ List.mem_cons_self)
  exact absurd hdigit (by decide)

/-- An integer of a word is read back. -/
theorem number?_int {n : Int} (h : Value.IsWord n) :
    number? (toString n).toList = some (.int n, []) := by
  have hsign : sign (toString n).toList = (decide (n < 0), Nat.toDigits 10 n.natAbs) := by
    rw [Int.toString_eq_repr, Int.repr_eq_if]
    by_cases hneg : n < 0
    · have habs : (-n).toNat = n.natAbs := by omega
      rw [if_neg (Int.not_le.mpr hneg), habs, String.toList_append, Nat.toList_repr,
        decide_eq_true hneg]
      rfl
    · have habs : n.toNat = n.natAbs := by omega
      rw [if_pos (Int.not_lt.mp hneg), habs, Nat.toList_repr, sign_toDigits,
        decide_eq_false hneg]
  have hsigned : (if n < 0 then -(n.natAbs : Int) else n.natAbs) = n := by
    split <;> omega
  have hnumeral :
      numeral? (decide (n < 0)) (Nat.toDigits 10 n.natAbs) none none = some (.int n) := by
    have hminus : (decide (n < 0) && n.natAbs == 0) = false := by
      rw [Bool.and_eq_false_iff, decide_eq_false_iff_not, beq_eq_false_iff_ne]
      omega
    simp only [numeral?, Decimal.natOfDigits_toDigits, decide_eq_true_eq, hsigned, hminus, decide_true,
      h.1, h.2, Option.isNone_none, Bool.not_false, Bool.and_self, if_true]
  simp only [number?, hsign, whole?_toDigits, places?, power?, hnumeral, Option.bind_eq_bind,
    Option.bind_some, Option.pure_def]

/-! ### Numerals on one line -/

theorem toDigits_no_feed (n : Nat) : '\n' ∉ Nat.toDigits 10 n := fun h =>
  absurd (Decimal.isDigit_toDigits h) (by decide)

theorem numeral_no_feed (f : Decimal.Notation) (d : Decimal) : '\n' ∉ f.layout d := by
  have hzeros : ∀ n, '\n' ∉ Decimal.zeros n := by simp [Decimal.zeros]
  have hdigits := toDigits_no_feed d.coeff
  have htake : ∀ n, '\n' ∉ (Nat.toDigits 10 d.coeff).take n := fun n h =>
    hdigits (List.mem_of_mem_take h)
  have hdrop : ∀ n, '\n' ∉ (Nat.toDigits 10 d.coeff).drop n := fun n h =>
    hdigits (List.mem_of_mem_drop h)
  unfold Decimal.Notation.layout
  simp only
  generalize (if d.coeff == 0 then 0 else ((Nat.toDigits 10 d.coeff).length : Int) - 1 + d.exp) = e
  split
  · split
    · simp [hzeros, hdigits]
    split
    · split <;> simp [hzeros, hdigits]
    · simp [htake, hdrop]
  · simp only [List.mem_append, List.mem_cons, not_or]
    refine ⟨⟨?mantissa, by decide, ?sign, hzeros _⟩, toDigits_no_feed _⟩
    case sign => split <;> decide
    case mantissa =>
      split
      · rename_i h
        rwa [h] at hdigits
      · rename_i h
        rw [h] at hdigits
        simpa using hdigits
      · exact List.not_mem_nil

theorem number_no_feed (x : Float) : '\n' ∉ (number x).toList := by
  unfold number Decimal.Notation.render
  split
  · split
    · decide
    · rw [String.toList_ofList]
      have hbody : '\n' ∉ (if x.isInf then Decimal.Notation.document.infinity.toList
          else Decimal.Notation.document.layout
            ((Decimal.Binary.ofBits (x.toBits &&& 0x7FFFFFFFFFFFFFFF)).shortest Decimal.Notation.document.tie)) := by
        split
        · decide
        · exact numeral_no_feed _ _
      split
      · exact List.not_mem_cons_of_ne_of_not_mem (by decide) hbody
      · exact hbody
  · decide

theorem int_no_feed (n : Int) : '\n' ∉ (toString n).toList := by
  rw [Int.toString_eq_repr, Int.repr_eq_if]
  split
  · rw [Nat.toList_repr]
    exact toDigits_no_feed _
  · rw [String.toList_append, Nat.toList_repr]
    exact List.not_mem_cons_of_ne_of_not_mem (by decide) (toDigits_no_feed _)

/-!
### Quoted texts as literals

What a literal in double quotes stands for by the escapes that Python, JavaScript and JSON have in
common. A quoted text is such a literal: nothing in it closes it or ends its line, and it stands for
the text.
-/

/-- The one-letter escapes that the three languages share; the escaped slash of JSON is not one. -/
def sharedEscape? : Char → Option Char
  | '"' => some '"'
  | '\\' => some '\\'
  | 'b' => some (Char.ofNat 8)
  | 'f' => some (Char.ofNat 12)
  | 'n' => some '\n'
  | 'r' => some '\r'
  | 't' => some '\t'
  | _ => none

/-- The text that stands between the quotes of a shared literal. An escaped surrogate is refused, as
the languages differ on pairs of them. -/
def literalText? : List Char → Option (List Char)
  | [] => some []
  | '\\' :: 'u' :: a :: b :: c :: d :: rest =>
    match hex4? a b c d with
    | some n => if n < 0xD800 || 0xE000 ≤ n then (literalText? rest).map (Char.ofNat n :: ·) else none
    | none => none
  | '\\' :: e :: rest =>
    match sharedEscape? e with
    | some c => (literalText? rest).map (c :: ·)
    | none => none
  | c :: rest =>
    if c.toNat < 32 || c = '"' || c = '\\' then none else (literalText? rest).map (c :: ·)

/-- The characters without a backslash before them. -/
def bare : List Char → List Char
  | [] => []
  | '\\' :: _ :: rest => bare rest
  | c :: rest => c :: bare rest

/-- One literal in double quotes that stands for the given text. -/
def IsLiteral (literal text : List Char) : Prop :=
  ∃ body, literal = '"' :: body ++ ['"'] ∧ '"' ∉ bare body ∧ '\n' ∉ body ∧ '\r' ∉ body ∧
    literalText? body = some text

theorem unescape?_of_sharedEscape? {e c : Char} (h : sharedEscape? e = some c) :
    unescape? e = some c := by
  unfold sharedEscape? at h
  split at h <;> first | exact h | cases h

theorem sharedEscape?_of_unescape? {e c : Char} (h : unescape? e = some c) (he : e ≠ '/') :
    sharedEscape? e = some c := by
  unfold unescape? at h
  split at h <;> first | exact h | contradiction

/-- JSON reads a shared literal in the same way. -/
theorem textBody_of_literalText? {body text : List Char} (h : literalText? body = some text)
    (acc rest : List Char) :
    textBody acc (body ++ '"' :: rest) = some (acc.reverse ++ text, rest) := by
  fun_induction literalText? body generalizing text acc with
  | case1 =>
    obtain rfl := Option.some.inj h
    simp [textBody]
  | case2 a b c d tail n hn hrange ih =>
    obtain ⟨text, htext, rfl⟩ := Option.map_eq_some_iff.mp h
    simp only [List.cons_append]
    rw [textBody, hn]
    simp only [hrange, if_true]
    rw [ih htext]
    simp
  | case5 e tail _ c hc ih =>
    obtain ⟨text, htext, rfl⟩ := Option.map_eq_some_iff.mp h
    have he : e ≠ 'u' := by
      rintro rfl
      cases hc
    have hletter := (Escapes.letter (unescape?_of_sharedEscape? hc) he).textBody acc
    rw [show '\\' :: e :: tail ++ '"' :: rest = ['\\', e] ++ (tail ++ '"' :: rest) from rfl, hletter,
      ih htext]
    simp
  | case8 c tail _ _ hc ih =>
    obtain ⟨text, htext, rfl⟩ := Option.map_eq_some_iff.mp h
    simp only [Bool.or_eq_true, decide_eq_true_eq, not_or, Nat.not_lt] at hc
    have hplain := (Escapes.plain hc.1.2 hc.2 hc.1.1).textBody acc
    rw [show c :: tail ++ '"' :: rest = [c] ++ (tail ++ '"' :: rest) from rfl, hplain, ih htext]
    simp
  | case3 | case4 | case6 | case7 => cases h

theorem literalText?_escapeChar (c : Char) (rest : List Char) :
    literalText? (escapeChar c ++ rest) = (literalText? rest).map (c :: ·) := by
  have h := escapes_escapeChar c
  generalize hs : escapeChar c = s at h
  cases h with
  | @letter e hletter hu =>
    have hslash : e ≠ '/' := by
      rintro rfl
      obtain rfl := Option.some.inj hletter
      revert hs
      decide
    simp only [List.cons_append, List.nil_append]
    rw [literalText?, sharedEscape?_of_unescape? hletter hslash]
    rintro _ _ _ _ _ rfl
    exact absurd rfl hu
  | code hcontrol =>
    simp only [List.cons_append, List.nil_append]
    have hlow : (decide (c.toNat < 0xD800) || decide (0xE000 ≤ c.toNat)) = true := by
      simp
      omega
    rw [literalText?, hex4?_control _ hcontrol]
    simp only [hlow, if_true, Char.ofNat_toNat]
  | plain hquote hslash hcontrol =>
    simp only [List.cons_append, List.nil_append]
    rw [literalText?]
    · simp [hquote, hslash, Nat.not_lt.mpr hcontrol]
    · exact fun _ _ _ _ _ h => absurd h hslash
    · exact fun _ _ h => absurd h hslash

theorem literalText?_escaped (s : List Char) : literalText? (s.flatMap escapeChar) = some s := by
  induction s with
  | nil => rfl
  | cons c s ih => rw [List.flatMap_cons, literalText?_escapeChar, ih, Option.map_some]

theorem bare_cons {c : Char} (h : c ≠ '\\') (rest : List Char) : bare (c :: rest) = c :: bare rest := by
  rw [bare]
  exact fun _ _ hc => absurd hc h

theorem Escapes.no_bare_quote {c : Char} {s rest : List Char} (h : Escapes c s)
    (hrest : '"' ∉ bare rest) : '"' ∉ bare (s ++ rest) := by
  have hdigit : ∀ n < 16, hexDigit n ≠ '\\' ∧ '"' ≠ hexDigit n := by decide
  cases h with
  | letter => simpa [bare] using hrest
  | code hcontrol =>
    have hhigh := hdigit (c.toNat / 16) (by omega)
    have hlow := hdigit (c.toNat % 16) (by omega)
    simp [bare, bare_cons, hhigh, hlow, hrest]
  | plain hquote hslash _ => simp [bare_cons hslash, hrest, Ne.symm hquote]

theorem no_bare_quote_escaped (s : List Char) : '"' ∉ bare (s.flatMap escapeChar) := by
  induction s with
  | nil => simp [bare]
  | cons c s ih => exact (escapes_escapeChar c).no_bare_quote ih

theorem no_control_escaped {s : List Char} {d : Char} (hd : d.toNat < 32) :
    d ∉ s.flatMap escapeChar := by
  intro hmem
  obtain ⟨c, _, hc⟩ := List.mem_flatMap.mp hmem
  exact absurd ((escapes_escapeChar c).no_control d hc) (Nat.not_le.mpr hd)

/-- A quoted text is a literal for the text. -/
theorem isLiteral_quoteChars (s : List Char) : IsLiteral (quoteChars s) s :=
  ⟨s.flatMap escapeChar, rfl, no_bare_quote_escaped s, no_control_escaped (by decide),
    no_control_escaped (by decide), literalText?_escaped s⟩

end Flowline.Json
