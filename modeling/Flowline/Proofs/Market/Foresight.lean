import Flowline.Proofs.Market.Feature
import Flowline.Proofs.Market.Prefix
import Flowline.Proofs.Market.Shape

/-!
# Features that look ahead

A feature that compares prices with rows below them looks ahead, and so do features that read its
columns. All others are the same over the first rows of a table as over all of them.
-/
namespace Flowline.Market.Feature

open Builtin

/-! ### What a wish reads and adds -/

/-- A wish for a feature of a type that is known. -/
def IsWish (spec : Fields) (type : String) (t : FeatureType) : Prop :=
  field spec "type" = .str type ∧ FeatureType.ofName? type = some t

/-- The columns that a feature reads, if its wish names one. -/
def reads (column : String) : FeatureType → List String
  | .atr | .stochastic => ["high", "low", "close"]
  | .volumeSma => ["volume"]
  | .volatility => [column, "high", "low", "close"]
  | _ => [column]

/-- A change of prices over a negative number of rows. -/
def IsReversed (spec : Fields) : Prop :=
  field spec "type" = .str "price_change" ∧ ∃ k < 0, int spec "period" 1 = .ok k

theorem ofName?_priceChange {type : String} (h : FeatureType.ofName? type = some .priceChange) :
    type = "price_change" := by
  unfold FeatureType.ofName? at h
  split at h <;> simp_all

variable {n : Nat} {cols cols' : Columns} {spec : Fields} {type column : String} {t : FeatureType}

/-- Over the first rows of what it reads, a feature has the first rows of its columns. -/
theorem build_take (hwish : IsWish spec type t) (hback : ¬ IsReversed spec)
    (hreads : ∀ c ∈ reads column t, get cols' c = (get cols c).take n) :
    Follows (Derived.take n) (build t cols (get cols column) spec)
      (build t cols' (get cols' column) spec) := by
  unfold build
  dsimp only
  cases t with
  | sma =>
    rw [hreads column (by simp [reads])]
    exact Follows.bind_same _ fun k => Indicator.sma_take _ n k
  | ema =>
    rw [hreads column (by simp [reads])]
    exact Follows.bind_same _ fun k => Indicator.ema_take _ n k
  | rsi =>
    rw [hreads column (by simp [reads])]
    exact Follows.bind_same _ fun k => Indicator.rsi_take _ n k
  | macd =>
    rw [hreads column (by simp [reads])]
    exact Indicator.macd_take _ n _ _ _
  | bollingerBands =>
    rw [hreads column (by simp [reads])]
    exact Follows.bind_same _ fun k => Follows.bind_same _ fun x => Indicator.bands_take _ n k x
  | atr =>
    exact Follows.bind_same _ fun k => Indicator.atr_take n (hreads "high" (by simp [reads]))
      (hreads "low" (by simp [reads])) (hreads "close" (by simp [reads])) k
  | stochastic =>
    exact Follows.bind_same _ fun k => Follows.bind_same _ fun d =>
      Indicator.stochastic_take n (hreads "high" (by simp [reads]))
        (hreads "low" (by simp [reads])) (hreads "close" (by simp [reads])) k d
  | volumeSma =>
    exact Follows.bind_same _ fun k => Indicator.volumeSma_take n (hreads "volume" (by simp [reads])) k
  | priceChange =>
    rw [hreads column (by simp [reads])]
    intro d hd
    obtain ⟨k, hk, hd⟩ := exists_of_bind_eq_ok hd
    have htype : field spec "type" = .str "price_change" :=
      hwish.1.trans (congrArg Value.str (ofName?_priceChange hwish.2))
    have hpos : 0 ≤ k := not_lt.mp fun hneg => hback ⟨htype, k, hneg, hk⟩
    rw [hk, ← Except.ok.inj hd, Indicator.priceChange_take _ n hpos]
    rfl
  | volatility =>
    rw [hreads column (by simp [reads])]
    exact Follows.bind_same _ fun k => Indicator.volatility_take _ n (hreads "high" (by simp [reads]))
      (hreads "low" (by simp [reads])) (hreads "close" (by simp [reads])) k

/-! ### What a wish comes to -/

/-- Adds the columns of a feature. -/
def Work.addAll (w : Work) (base : String) (d : Derived Float) : Work :=
  d.foldl (fun w (ending, c) => w.add (base ++ ending) c) w

/-- A wish is granted: its columns are built from those there are. -/
structure Granted (cols : Columns) (spec : Fields) (type base source : String) (t : FeatureType)
    (d : Derived Float) : Prop where
  wish : IsWish spec type t
  named : baseName spec type = .ok base
  reading : param spec "column" (.str "close") = .str source
  known : (cols.lookup source).isSome = true
  built : build t cols (get cols source) spec = .ok d

theorem asKey_eq_str {v : Value} {s : String} (h : asKey v = .ok (.str s)) : v = .str s := by
  unfold asKey at h
  split at h
  · cases h
  · have hv := Except.ok.inj h
    unfold canonical at hv
    split at hv
    · cases hv
    · split at hv <;> cases hv
    · exact hv

theorem sourceOf_eq_ok {source : Column Float} (h : sourceOf cols spec type = .ok source) :
    ∃ name, param spec "column" (.str "close") = .str name ∧
      cols.lookup name = some source := by
  obtain ⟨key, hkey, h⟩ := exists_of_bind_eq_ok h
  cases key with
  | str name =>
    refine ⟨name, asKey_eq_str hkey, ?_⟩
    dsimp only at h
    cases hlookup : cols.lookup name with
    | none =>
      rw [hlookup] at h
      cases h
    | some c =>
      rw [hlookup] at h
      exact congrArg some (Except.ok.inj h)
  | _ => cases h

/-- A wish is granted, or its type is not known. -/
theorem addFeature_eq_ok {w w' : Work} {wish : Value} {printed : List String}
    (h : Script.after printed (addFeature w wish) = .ok w') :
    ∃ spec, wish = .map spec ∧ ((w' = w ∧ ∀ type t, ¬ IsWish spec type t) ∨
      ∃ type base source t d, Granted w.cols spec type base source t d ∧
        w' = w.addAll base d) := by
  unfold addFeature at h
  simp only [Script.after_lift_bind] at h
  obtain ⟨spec, hspec, h⟩ := exists_of_bind_eq_ok h
  obtain ⟨key, hkey, h⟩ := exists_of_bind_eq_ok h
  have hmap : wish = .map spec := by
    cases wish with
    | map fs => exact congrArg Value.map (Except.ok.inj hspec)
    | _ => cases hspec
  refine ⟨spec, hmap, ?_⟩
  cases htype : (field spec "type").asStr?.bind FeatureType.ofName? with
  | none =>
    rw [htype] at h
    refine .inl ⟨(Except.ok.inj h).symm, fun type t hwish => ?_⟩
    rw [hwish.1] at htype
    exact nomatch hwish.2.symm.trans htype
  | some t =>
    rw [htype] at h
    simp only [Script.after_lift_bind] at h
    obtain ⟨c, hc, h⟩ := exists_of_bind_eq_ok h
    obtain ⟨d, hd, h⟩ := exists_of_bind_eq_ok h
    obtain ⟨base, hbase, h⟩ := exists_of_bind_eq_ok h
    obtain ⟨type, hstr, ht⟩ := Option.bind_eq_some_iff.mp htype
    have hfield : field spec "type" = .str type := by
      cases hf : field spec "type" with
      | str s =>
        rw [hf] at hstr
        exact congrArg Value.str (Option.some.inj hstr)
      | _ =>
        rw [hf] at hstr
        cases hstr
    obtain ⟨source, hsource, hlookup⟩ := sourceOf_eq_ok hc
    have hget : get w.cols source = c := by rw [Feature.get, hlookup, Option.getD_some]
    have hshown : Text.shownValue key = type := by
      rw [hfield] at hkey
      rw [← Except.ok.inj hkey]
      rfl
    rw [hshown] at hbase
    exact .inr ⟨type, base, source, t, d, ⟨⟨hfield, ht⟩, hbase, hsource,
      by rw [hlookup, Option.isSome_some], hget.symm ▸ hd⟩, (Except.ok.inj h).symm⟩

/-- A wish that is granted over two tables is for the same columns. -/
theorem Granted.unique {cols cols' : Columns} {type' base source base' source' : String}
    {t' : FeatureType} {d d' : Derived Float} (h : Granted cols spec type base source t d)
    (h' : Granted cols' spec type' base' source' t' d') :
    base' = base ∧ source' = source ∧ t' = t := by
  have htype : type' = type := Value.str.inj (h'.wish.1.symm.trans h.wish.1)
  subst htype
  exact ⟨Except.ok.inj (h'.named.symm.trans h.named), Value.str.inj (h'.reading.symm.trans h.reading),
    Option.some.inj (h'.wish.2.symm.trans h.wish.2)⟩

/-! ### Columns that look ahead -/

/-- The wish adds a column of the name. -/
def Adds (spec : Fields) (name : String) : Prop :=
  ∃ type t base, IsWish spec type t ∧ baseName spec type = .ok base ∧
    ∃ ending ∈ endings t, name = base ++ ending

/-- The wish looks ahead by itself, or reads a column that does. -/
def LooksAhead (ahead : String → Prop) (spec : Fields) : Prop :=
  IsReversed spec ∨ ∃ type t source, IsWish spec type t ∧
    param spec "column" (.str "close") = .str source ∧ ∃ c ∈ reads source t, ahead c

/-- The columns that look ahead after a wish: those that it adds if it looks ahead, and of the others
those that did so before. -/
def aheadAfter (ahead : String → Prop) : Value → String → Prop
  | .map spec => fun name => Adds spec name ∧ LooksAhead ahead spec ∨ ¬ Adds spec name ∧ ahead name
  | _ => ahead

/-- The columns that look ahead after some wishes. -/
def Ahead (wishes : List Value) : String → Prop := wishes.foldl aheadAfter fun _ => False

theorem not_aheadAfter {ahead : String → Prop} (h : ∀ name, ¬ ahead name) {wish : Value}
    (hback : ∀ spec, wish = .map spec → ¬ IsReversed spec) (name : String) :
    ¬ aheadAfter ahead wish name := by
  cases wish with
  | map spec =>
    rintro (⟨-, hrev | ⟨-, -, -, -, -, c, -, hc⟩⟩ | ⟨-, hname⟩)
    · exact hback spec rfl hrev
    · exact h c hc
    · exact h name hname
  | _ => exact h name

/-- Without a reversed wish no column looks ahead. -/
theorem not_ahead {wishes : List Value} (hback : ∀ spec, .map spec ∈ wishes → ¬ IsReversed spec)
    (name : String) : ¬ Ahead wishes name := by
  have hfold : ∀ ahead : String → Prop, (∀ name, ¬ ahead name) →
      ∀ name, ¬ wishes.foldl aheadAfter ahead name := by
    induction wishes with
    | nil => exact fun _ h => h
    | cons wish rest ih =>
      intro ahead h
      refine ih (fun spec hspec => hback spec (List.mem_cons_of_mem _ hspec)) _ ?_
      exact not_aheadAfter h fun spec hspec => hback spec (hspec ▸ List.mem_cons_self)
  exact hfold _ (fun _ => id) name

/-! ### Two tables, of which one begins the other -/

/-- The cells of a column, none where a row has no such field. -/
def cellsOf (rows : List Fields) (name : String) : List (Option Value) :=
  rows.map fun r => Fields.get? r name

theorem cellsOf_setNumbers {rows : List Fields} {c : Column Float} (hc : c.length = rows.length)
    (name k : String) : cellsOf (setNumbers rows name c) k =
      if k = name then c.map fun x => some (cell x) else cellsOf rows k := by
  unfold setNumbers setCells cellsOf
  induction rows generalizing c with
  | nil =>
    obtain rfl := List.length_eq_zero_iff.mp hc
    simp
  | cons r rest ih =>
    obtain ⟨x, c, rfl⟩ := List.exists_cons_of_length_eq_add_one hc
    have hrest := ih (Nat.succ.inj hc)
    rw [List.map_cons, List.zipWith_cons_cons, List.map_cons, hrest]
    split
    · rename_i hk
      rw [hk, Fields.get?_insert_self, List.map_cons]
    · rename_i hk
      rw [Fields.get?_insert_of_ne hk, List.map_cons]

theorem lookup_put (cols : Columns) (name : String) (c : Column Float) (k : String) :
    (put cols name c).lookup k = if k = name then some c else cols.lookup k := by
  unfold put
  by_cases hk : k = name
  · rw [if_pos hk, hk, List.lookup_cons_self]
  · rw [if_neg hk, List.lookup_cons, beq_eq_false_iff_ne.mpr hk]
    dsimp only
    induction cols with
    | nil => rfl
    | cons p rest ih =>
      rw [List.filter_cons, List.lookup_cons]
      by_cases hp : p.1 = name
      · have hne : (k == p.1) = false := beq_eq_false_iff_ne.mpr (hp ▸ hk)
        simp [hp, ih, hp ▸ hne]
      · rw [if_pos (by simpa using hp), List.lookup_cons, ih]

/-- A table in the making of a number of rows, with prices. -/
structure Work.Priced (n : Nat) (w : Work) : Prop where
  rows : w.rows.length = n
  covers : Covers n priceColumns w.cols

/-- Except for the columns that look ahead, the second table is the first one, cut short. -/
structure Work.Agrees (ahead : String → Prop) (n : Nat) (w w' : Work) : Prop where
  added : w'.added = w.added
  cols : ∀ name, ¬ ahead name → w'.cols.lookup name = (w.cols.lookup name).map (List.take n)
  cells : ∀ name, ¬ ahead name → cellsOf w'.rows name = (cellsOf w.rows name).take n

variable {ahead ahead' : String → Prop} {m : Nat} {w w' v v' : Work}

theorem Work.Agrees.mono (h : Work.Agrees ahead n w w') (hahead : ∀ name, ahead name → ahead' name) :
    Work.Agrees ahead' n w w' :=
  ⟨h.added, fun name hname => h.cols name (mt (hahead name) hname),
    fun name hname => h.cells name (mt (hahead name) hname)⟩

theorem Work.Priced.add (h : Work.Priced n w) {c : Column Float} (hc : c.length = n)
    (name : String) : Work.Priced n (w.add name c) := by
  refine ⟨?_, h.covers.put hc⟩
  simp [Work.add, setNumbers, setCells, hc, h.rows]

/-- A column that is added to both tables looks ahead afterwards if it may, and only then. -/
theorem Work.Agrees.add (h : Work.Agrees ahead n w w') (hw : Work.Priced m w)
    (hw' : Work.Priced n w') {c c' : Column Float} (hc : c.length = m) (hc' : c'.length = n)
    {leaks : Prop} (hcut : ¬ leaks → c' = c.take n) (name : String) :
    Work.Agrees (fun k => k = name ∧ leaks ∨ k ≠ name ∧ ahead k) n (w.add name c)
      (w'.add name c') := by
  refine ⟨congrArg (· ++ [name]) h.added, fun k hk => ?_, fun k hk => ?_⟩
  · unfold Work.add
    rw [lookup_put, lookup_put]
    split
    · rename_i heq
      rw [hcut fun hleaks => hk (.inl ⟨heq, hleaks⟩)]
      rfl
    · rename_i hne
      exact h.cols k fun hahead => hk (.inr ⟨hne, hahead⟩)
  · unfold Work.add
    rw [cellsOf_setNumbers (hc.trans hw.rows.symm), cellsOf_setNumbers (hc'.trans hw'.rows.symm)]
    split
    · rename_i heq
      rw [hcut fun hleaks => hk (.inl ⟨heq, hleaks⟩), List.map_take]
    · rename_i hne
      exact h.cells k fun hahead => hk (.inr ⟨hne, hahead⟩)

theorem Work.Priced.addAll (h : Work.Priced n w) {d : Derived Float}
    (hd : ∀ p ∈ d, p.2.length = n) (base : String) : Work.Priced n (w.addAll base d) := by
  induction d generalizing w with
  | nil => exact h
  | cons p rest ih =>
    exact ih (h.add (hd p List.mem_cons_self) _) fun q hq => hd q (List.mem_cons_of_mem _ hq)

/-- So it is with all columns of a feature. -/
theorem Work.Agrees.addAll (h : Work.Agrees ahead n w w') (hw : Work.Priced m w)
    (hw' : Work.Priced n w') {d d' : Derived Float} {names : List String}
    (hd : d.Shaped names m) (hd' : d'.Shaped names n) {leaks : Prop}
    (hcut : ¬ leaks → d' = Derived.take n d) (base : String) :
    Work.Agrees (fun k => k ∈ names.map (base ++ ·) ∧ leaks ∨ k ∉ names.map (base ++ ·) ∧ ahead k) n
      (w.addAll base d) (w'.addAll base d') := by
  obtain ⟨rfl, hrows⟩ := hd
  obtain ⟨hnames, hrows'⟩ := hd'
  induction d generalizing ahead w w' d' with
  | nil =>
    obtain rfl := List.map_eq_nil_iff.mp hnames
    exact h.mono fun k hk => .inr ⟨List.not_mem_nil, hk⟩
  | cons p rest ih =>
    obtain ⟨_, c⟩ := p
    obtain ⟨⟨ending, c'⟩, rest', rfl, rfl, hrest⟩ := List.map_eq_cons_iff.mp hnames
    have hcut' : ¬ leaks → c' = c.take n ∧ rest' = Derived.take n rest := by
      intro hleaks
      obtain ⟨hc, hrest'⟩ := List.cons.inj (hcut hleaks)
      exact ⟨congrArg Prod.snd hc, hrest'⟩
    have hlen := hrows _ List.mem_cons_self
    have hlen' := hrows' _ List.mem_cons_self
    have hfirst := h.add hw hw' hlen hlen' (fun hleaks => (hcut' hleaks).1) (base ++ ending)
    have hall := ih hfirst (hw.add hlen _) (hw'.add hlen' _)
      (fun hleaks => (hcut' hleaks).2) (fun q hq => hrows q (List.mem_cons_of_mem _ hq)) hrest
      (fun q hq => hrows' q (List.mem_cons_of_mem _ hq))
    refine hall.mono fun k hk => ?_
    simp only [List.map_cons, List.mem_cons] at hk ⊢
    tauto

/-- One wish over both tables. -/
theorem addFeature_agrees (h : Work.Agrees ahead n w w') (hw : Work.Priced m w)
    (hw' : Work.Priced n w') {wish : Value} {printed printed' : List String}
    (hv : Script.after printed (addFeature w wish) = .ok v)
    (hv' : Script.after printed' (addFeature w' wish) = .ok v') :
    Work.Agrees (aheadAfter ahead wish) n v v' ∧ Work.Priced m v ∧ Work.Priced n v' := by
  obtain ⟨spec, rfl, hcases⟩ := addFeature_eq_ok hv
  obtain ⟨spec', hspec, hcases'⟩ := addFeature_eq_ok hv'
  obtain rfl := Value.map.inj hspec
  rcases hcases with ⟨rfl, hunknown⟩ | ⟨type, base, source, t, d, hd, rfl⟩
  · rcases hcases' with ⟨rfl, -⟩ | ⟨type, base, source, t, d, hd, -⟩
    · refine ⟨h.mono fun k hk => .inr ⟨?_, hk⟩, hw, hw'⟩
      rintro ⟨type, t, -, hwish, -⟩
      exact hunknown type t hwish
    · exact absurd hd.wish (hunknown type t)
  · rcases hcases' with ⟨-, hunknown⟩ | ⟨type', base', source', t', d', hd', rfl⟩
    · exact absurd hd.wish (hunknown type t)
    · obtain ⟨rfl, rfl, rfl⟩ := hd.unique hd'
      have hprices : ∀ c ∈ priceColumns, c ∈ priceColumns := fun _ => id
      have hlength {k : Nat} {cols : Columns} (hcols : Covers k priceColumns cols)
          (hknown : (cols.lookup source').isSome = true) : (get cols source').length = k := by
        obtain ⟨c, hc⟩ := Option.isSome_iff_exists.mp hknown
        rw [Feature.get, hc]
        exact hcols.length hc
      have hshaped := build_shaped (hw.covers.prices hprices) (hlength hw.covers hd.known) hd.built
      have hshaped' :=
        build_shaped (hw'.covers.prices hprices) (hlength hw'.covers hd'.known) hd'.built
      have hcut : ¬ LooksAhead ahead spec → d' = Derived.take n d := by
        intro hlooks
        obtain ⟨hback, hreads⟩ := not_or.mp hlooks
        have hget : ∀ c ∈ reads source' t', get w'.cols c = (get w.cols c).take n := by
          intro c hc
          have hclean : ¬ ahead c := fun hc' =>
            hreads ⟨type, t', source', hd.wish, hd.reading, c, hc, hc'⟩
          rw [Feature.get, Feature.get, h.cols c hclean]
          cases w.cols.lookup c <;> simp
        have hbuilt := build_take hd.wish hback hget d hd.built
        exact Except.ok.inj (hd'.built.symm.trans hbuilt)
      have hadds (k : String) : k ∈ (endings t').map (base' ++ ·) ↔ Adds spec k := by
        rw [List.mem_map]
        constructor
        · rintro ⟨e, he, rfl⟩
          exact ⟨type, t', base', hd.wish, hd.named, e, he, rfl⟩
        · rintro ⟨type', t, base, hwish, hbase, e, he, rfl⟩
          obtain rfl := Value.str.inj (hwish.1.symm.trans hd.wish.1)
          obtain rfl := Option.some.inj (hwish.2.symm.trans hd.wish.2)
          obtain rfl := Except.ok.inj (hbase.symm.trans hd.named)
          exact ⟨e, he, rfl⟩
      have hall := h.addAll hw hw' hshaped hshaped' hcut base'
      refine ⟨hall.mono fun k hk => ?_, hw.addAll hshaped.rows _, hw'.addAll hshaped'.rows _⟩
      rwa [hadds k] at hk

/-- All wishes over both tables, one after the other. -/
theorem addFeatures_agree {wishes : List Value} (h : Work.Agrees ahead n w w')
    (hw : Work.Priced m w) (hw' : Work.Priced n w') {printed printed' : List String}
    (hv : Script.after printed (wishes.foldlM addFeature w) = .ok v)
    (hv' : Script.after printed' (wishes.foldlM addFeature w') = .ok v') :
    Work.Agrees (wishes.foldl aheadAfter ahead) n v v' := by
  induction wishes generalizing ahead w w' printed printed' with
  | nil =>
    obtain rfl := Except.ok.inj hv
    obtain rfl := Except.ok.inj hv'
    exact h
  | cons wish rest ih =>
    rw [List.foldlM_cons] at hv hv'
    obtain ⟨u, next, hu, hv⟩ := Script.exists_of_after_bind hv
    obtain ⟨u', next', hu', hv'⟩ := Script.exists_of_after_bind hv'
    obtain ⟨hstep, hpriced, hpriced'⟩ := addFeature_agrees h hw hw' hu hu'
    exact ih hstep hpriced hpriced' hv hv'

/-! ### The table before gaps are filled -/

/-- The table that features are added to. -/
def start (rows : List Fields) : Work :=
  { rows, cols := (columnsOf rows).map fun name => (name, numbers rows name) }

/-- What the wishes make of a table, before gaps are filled. -/
def derived (wishes : List Value) (rows : List Fields) : Script Work :=
  wishes.foldlM addFeature (start rows)

/-- The node fills the gaps of what the wishes make of its table. -/
theorem generate_eq_ok {params inputs : Fields} {v : Value}
    (h : (generate params inputs).outcome.1 = .ok v) :
    ∃ source rows wishes printed w metadata, prices? (tables inputs) = .ok (some source) ∧
      source.mapM toRow = .ok rows ∧ elements (field params "features") = .ok wishes ∧
      Script.after printed (derived wishes rows) = .ok w ∧
      v = tableValue (fill (.ofValue (param params "fill_na_method" (.str "forward"))) w.added
        w.rows) metadata := by
  change Script.after [] (generate params inputs) = .ok v at h
  unfold generate at h
  dsimp only at h
  split at h
  · cases h
  · rw [Script.after_lift_bind] at h
    obtain ⟨source?, hsource, h⟩ := exists_of_bind_eq_ok h
    cases source? with
    | none => cases h
    | some source =>
      simp only [pure_bind, Script.after_lift_bind, Script.after_print_bind] at h
      obtain ⟨rows, hrows, h⟩ := exists_of_bind_eq_ok h
      obtain ⟨wishes, hwishes, h⟩ := exists_of_bind_eq_ok h
      obtain ⟨w, printed, hw, h⟩ := Script.exists_of_after_bind h
      simp only [Script.after_print_bind, Script.after_lift_bind] at h
      obtain ⟨range, -, h⟩ := exists_of_bind_eq_ok h
      exact ⟨source, rows, wishes, _, w, _, hsource, hrows, hwishes, hw, (Except.ok.inj h).symm⟩

theorem start_priced {rows : List Fields} (h : ∀ c ∈ priceColumns, c ∈ columnsOf rows) :
    Work.Priced rows.length (start rows) := by
  have hcovers := (initial_holds rows).covers
  exact ⟨rfl, hcovers.rows, fun name hname => hcovers.names name (h name hname)⟩

theorem start_agrees {xs : List Fields} (hne : xs ≠ []) (ys : List Fields) :
    Work.Agrees (fun _ => False) xs.length (start (xs ++ ys)) (start xs) := by
  have hcolumns : columnsOf (xs ++ ys) = columnsOf xs := by
    rw [columnsOf, List.head?_append_of_ne_nil _ hne]
  refine ⟨rfl, fun name _ => ?_, fun name _ => ?_⟩
  · unfold start
    rw [lookup_paired, lookup_paired, hcolumns]
    split <;> simp [numbers]
  · simp [start, cellsOf]

/-- Over the first rows of a table, wishes make the first rows of what they make of all rows, except
for columns that look ahead, of which there are none without a reversed wish. -/
theorem derived_agrees {wishes : List Value} {xs ys : List Fields}
    (hprices : ∀ c ∈ priceColumns, c ∈ columnsOf xs) {printed printed' : List String} {w w' : Work}
    (hall : Script.after printed (derived wishes (xs ++ ys)) = .ok w)
    (hfirst : Script.after printed' (derived wishes xs) = .ok w') :
    w'.added = w.added ∧
      (∀ name, ¬ Ahead wishes name →
        cellsOf w'.rows name = (cellsOf w.rows name).take xs.length) ∧
      ((∀ spec, .map spec ∈ wishes → ¬ IsReversed spec) → ∀ name, ¬ Ahead wishes name) := by
  have hne : xs ≠ [] := by
    rintro rfl
    exact nomatch hprices "open" (by decide)
  have hcolumns : columnsOf (xs ++ ys) = columnsOf xs := by
    rw [columnsOf, List.head?_append_of_ne_nil _ hne]
  have hpriced : Work.Priced (xs ++ ys).length (start (xs ++ ys)) :=
    start_priced fun c hc => hcolumns ▸ hprices c hc
  have hagrees :=
    addFeatures_agree (start_agrees hne ys) hpriced (start_priced hprices) hall hfirst
  exact ⟨hagrees.added, hagrees.cells, not_ahead⟩

/-- Which rows have a gap in a column. -/
def gapsOf (name : String) (x : Except Fault Work) : Option (List Bool) :=
  x.toOption.map fun w => w.rows.map (isGap name)

theorem exists_of_gapsOf {name : String} {x : Except Fault Work} {gaps : List Bool}
    (h : gapsOf name x = some gaps) : ∃ w, x = .ok w ∧ w.rows.map (isGap name) = gaps := by
  cases x with
  | ok w => exact ⟨w, rfl, Option.some.inj h⟩
  | error f => cases h

/-- Changes over one row, and a mean of these. -/
def driftWishes : List Fields :=
  [[("type", .str "price_change")],
    [("type", .str "ema"), ("column", .str "price_change"), ("name", .str "drift")]]

theorem driftWishes_agree :
    NoErrors (Validation.parameterFaults featureGenerator (wishing driftWishes)) ∧
      (∀ c ∈ priceColumns, c ∈ columnsOf [flatRow 1, flatRow 2]) ∧
      ∃ w w',
        Script.after [] (derived (driftWishes.map .map) ([flatRow 1, flatRow 2] ++ [flatRow 3])) =
          .ok w ∧ w.rows.map (isGap "drift") = [true, false, false] ∧
        Script.after [] (derived (driftWishes.map .map) [flatRow 1, flatRow 2]) = .ok w' ∧
        ∀ name, cellsOf w'.rows name = (cellsOf w.rows name).take 2 := by
  have hprices : ∀ c ∈ priceColumns, c ∈ columnsOf [flatRow 1, flatRow 2] := by decide
  obtain ⟨w, hw, hgaps⟩ : ∃ w, Script.after []
      (derived (driftWishes.map .map) ([flatRow 1, flatRow 2] ++ [flatRow 3])) = .ok w ∧
        w.rows.map (isGap "drift") = [true, false, false] :=
    exists_of_gapsOf (by decide +kernel)
  obtain ⟨w', hw', -⟩ : ∃ w',
      Script.after [] (derived (driftWishes.map .map) [flatRow 1, flatRow 2]) = .ok w' ∧
        w'.rows.map (isGap "drift") = [true, false] :=
    exists_of_gapsOf (by decide +kernel)
  have hback : ∀ spec, .map spec ∈ driftWishes.map Value.map → ¬ IsReversed spec := by
    intro spec hspec
    rw [driftWishes, List.map_cons, List.map_cons, List.map_nil] at hspec
    simp only [List.mem_cons, List.not_mem_nil, or_false, Value.map.injEq] at hspec
    rintro ⟨htype, k, hneg, hk⟩
    rcases hspec with rfl | rfl
    · obtain rfl : (1 : Int) = k := Except.ok.inj hk
      exact absurd hneg (by decide)
    · exact absurd (Value.str.inj htype) (by decide)
  obtain ⟨-, hcells, hahead⟩ := derived_agrees hprices hw hw'
  exact ⟨noErrors_of_eq_nil rfl, hprices, w, w', hw, hgaps, hw',
    fun name => hcells name (hahead hback name)⟩

/-- A change against the row below. -/
def reversedWishes : List Fields := [[("type", .str "price_change"), ("period", .int (-1))]]

/-- The second row has a number in its column if there is a third row, and none otherwise. -/
theorem reversedWishes_look_ahead :
    NoErrors (Validation.parameterFaults featureGenerator (wishing reversedWishes)) ∧
      gapsOf "price_change_-1" (Script.after []
        (derived (reversedWishes.map .map) ([flatRow 1, flatRow 2] ++ [flatRow 3]))) =
          some [false, false, true] ∧
      gapsOf "price_change_-1" (Script.after []
        (derived (reversedWishes.map .map) [flatRow 1, flatRow 2])) = some [false, true] := by
  exact ⟨noErrors_of_eq_nil rfl, by decide +kernel, by decide +kernel⟩

end Flowline.Market.Feature
