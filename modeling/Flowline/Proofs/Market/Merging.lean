import Flowline.Catalog.Builtin
import Flowline.Market.Backtest
import Flowline.Proofs.Market.Feature

/-!
# Rows for a backtest

A backtest takes the rows of the first frame that has the signals. If that frame has no close, it
takes the prices of another one instead, but knows these only by all their columns. So frames that
together have times, a close and signals give rows that are ready to be traded on, unless the close
is in a frame that lacks other prices.
-/
namespace Flowline.Market.Backtest

open Feature

/-! ### Frames -/

/-- Rows under the same columns, with times that can be read. -/
structure IsFrame (rows : List Fields) : Prop where
  nonempty : rows ≠ []
  columns : ∀ r ∈ rows, ∀ c, r.has c = true ↔ c ∈ columnsOf rows
  timed : ∀ r ∈ rows, IsTime (field r "timestamp")

theorem isFrame_of_keys {rows : List Fields} (hne : rows ≠ [])
    (hkeys : ∀ r ∈ rows, r.keys = columnsOf rows)
    (htimed : ∀ r ∈ rows, IsTime (field r "timestamp")) : IsFrame rows :=
  ⟨hne, fun r hr c => by rw [Fields.has_iff, hkeys r hr], htimed⟩

/-- The first frame that has a column. -/
def frameWith? (column : String) (frames : List (List Fields)) : Option (List Fields) :=
  frames.find? fun f => column ∈ columnsOf f

/-- The first frame that has all price columns. -/
def priceFrame? (frames : List (List Fields)) : Option (List Fields) :=
  frames.find? fun f => priceColumns.all (· ∈ columnsOf f)

/-- The frame as it is among the outputs of dependencies. -/
def asTable (rows : List Fields) : List Value := rows.map .map

theorem holds_head {f : List Fields} (h : f ≠ []) (c : String) :
    holds ((asTable f).head?.getD .null) (.str c) = .ok (decide (c ∈ columnsOf f)) := by
  cases f with
  | nil => exact absurd rfl h
  | cons r rest =>
    change Except.ok (r.has c) = _
    rw [Except.ok.injEq, Bool.eq_iff_iff, Fields.has_iff]
    exact (decide_eq_true_iff (p := c ∈ columnsOf (r :: rest))).symm

theorem hasPrices_asTable {f : List Fields} (h : f ≠ []) :
    hasPrices (asTable f) = .ok (priceColumns.all (· ∈ columnsOf f)) := by
  cases f with
  | nil => exact absurd rfl h
  | cons r rest =>
    have hholds : (fun c => holds (.map r) (.str c)) =
        fun c => (pure (decide (c ∈ columnsOf (r :: rest))) : Except Fault Bool) :=
      funext fun c => holds_head (List.cons_ne_nil r rest) c
    change (priceColumns.allM fun c => holds (.map r) (.str c)) = _
    rw [hholds, List.allM_pure]
    rfl

variable {column : String} {frames : List (List Fields)} {inputs : Fields}

theorem filterM_eq (h : ∀ f ∈ frames, f ≠ []) :
    (frames.map asTable).filterM (fun t => holds (t.head?.getD .null) (.str column)) =
      .ok ((frames.filter fun f => column ∈ columnsOf f).map asTable) :=
  filterM_map_eq_pure fun f hf => holds_head (h f hf) column

theorem prices?_eq (h : ∀ f ∈ frames, f ≠ []) :
    prices? (frames.map asTable) = .ok ((priceFrame? frames).map asTable) := by
  unfold prices? priceFrame?
  induction frames with
  | nil => rfl
  | cons f rest ih =>
    obtain ⟨hf, hrest⟩ := List.forall_mem_cons.mp h
    rw [List.map_cons, List.findM?, hasPrices_asTable hf, ok_bind, ih hrest, List.find?_cons]
    cases priceColumns.all (· ∈ columnsOf f) <;> rfl

/-! ### Merging -/

/-- A row of prices with the signal that a frame has at its time. -/
def joined (column : String) (signals : List Fields) (row : Fields) : Fields :=
  row.insert column (signalAt (signals.map fun r => (canonical (field r "timestamp"), field r column))
    (canonical (field row "timestamp")))

theorem signalsByTime_eq {f : List Fields} (h : ∀ r ∈ f, IsTime (field r "timestamp")) :
    signalsByTime (.str column) (asTable f) =
      .ok (f.map fun r => (canonical (field r "timestamp"), field r column)) := by
  unfold signalsByTime asTable
  rw [List.mapM_map]
  refine mapM_eq_pure fun r hr => ?_
  change (asKey (field r "timestamp") >>= fun time => pure (time, field r column)) = _
  rw [(h r hr).asKey]
  rfl

theorem joinRow_eq {p f : List Fields} (h : ∀ r ∈ p, IsTime (field r "timestamp")) :
    (asTable p).mapM (joinRow (.str column)
      (f.map fun r => (canonical (field r "timestamp"), field r column))) =
      .ok (p.map (joined column f)) := by
  unfold asTable
  rw [List.mapM_map]
  refine mapM_eq_pure fun r hr => ?_
  change (asKey (field r "timestamp") >>= fun time => pure (Fields.insert r column (signalAt _ time))) = _
  rw [(h r hr).asKey]
  rfl

/-- The rows of the first frame with the signals, unless it has no close and a frame has prices:
then those with their signals. -/
def merged (column : String) (frames : List (List Fields)) (signals : List Fields) : List Fields :=
  if "close" ∈ columnsOf signals then signals
  else match priceFrame? frames with
    | some prices => prices.map (joined column signals)
    | none => signals

theorem mergedRows_eq (htables : tables inputs = frames.map asTable) (h : ∀ f ∈ frames, IsFrame f)
    {f : List Fields} (hf : frameWith? column frames = some f) :
    mergedRows inputs (.str column) = pure (merged column frames f) := by
  have hne : ∀ f ∈ frames, f ≠ [] := fun f hf => (h f hf).nonempty
  have hmem : f ∈ frames := List.mem_of_find?_eq_some hf
  have hgiven : (frames.map asTable).filter (fun t => !t.isEmpty) = frames.map asTable := by
    refine List.filter_eq_self.mpr fun t ht => ?_
    obtain ⟨g, hg, rfl⟩ := List.mem_map.mp ht
    simpa [asTable] using hne g hg
  have hsome : (frames.map asTable).isEmpty = false := by
    simpa using List.ne_nil_of_mem hmem
  obtain ⟨rest, hrest⟩ : ∃ rest, (frames.filter fun g => column ∈ columnsOf g) = f :: rest := by
    rw [frameWith?, ← List.head?_filter, List.head?_eq_some_iff] at hf
    exact hf
  unfold mergedRows merged
  simp only [htables, hgiven, hsome, filterM_eq hne, prices?_eq hne, hrest, List.map_cons,
    Script.lift_ok_bind, Bool.false_eq_true, if_false]
  have hf : IsFrame f := h f hmem
  have htoRow : (asTable f).mapM toRow = .ok f := mapM_toRow f
  cases hp : priceFrame? frames with
  | none =>
    simp only [Option.map_none, ite_self, htoRow]
    rfl
  | some p =>
    have hp : IsFrame p := h p (List.mem_of_find?_eq_some hp)
    by_cases hc : "close" ∈ columnsOf f
    · simp only [Option.map_some, holds_head hf.nonempty, hc, htoRow]
      rfl
    · simp only [Option.map_some, holds_head hf.nonempty, hc, signalsByTime_eq hf.timed,
        joinRow_eq hp.timed, Script.lift_ok_bind]
      rfl

/-- The rows have the same cells outside a column. -/
def AgreesBut (column : String) (r r' : Fields) : Prop := ∀ c, c ≠ column → r.get? c = r'.get? c

theorem AgreesBut.insert (column : String) (r : Fields) (v : Value) :
    AgreesBut column r (r.insert column v) := fun _ hc => (Fields.get?_insert_of_ne hc v).symm

theorem AgreesBut.trans {r r' r'' : Fields} (h : AgreesBut column r r')
    (h' : AgreesBut column r' r'') : AgreesBut column r r'' := fun c hc => (h c hc).trans (h' c hc)

theorem AgreesBut.field_eq {r r' : Fields} (h : AgreesBut column r r') {c : String}
    (hc : c ≠ column) : field r c = field r' c := by
  rw [field, field, h c hc]

/-- A signal that is found is one of those searched. -/
theorem signalAt_mem (signals : List (Value × Value)) (time : Value) :
    signalAt signals time = .null ∨ ∃ s ∈ signals, signalAt signals time = s.2 := by
  unfold signalAt
  cases hs : signals.reverse.find? fun s => s.1.same time with
  | none => exact .inl rfl
  | some s => exact .inr ⟨s, List.mem_reverse.mp (List.mem_of_find?_eq_some hs), rfl⟩

/-- Row by row, the merged rows are those of a frame, with signals of a frame. -/
structure Merged (column : String) (frames : List (List Fields)) (rows : List Fields) : Prop where
  origin : ∃ f ∈ frames, List.Forall₂ (AgreesBut column) f rows
  signal : ∀ r ∈ rows, field r column = .null ∨
    ∃ f ∈ frames, ∃ r' ∈ f, field r column = field r' column

theorem merged_merged {f : List Fields} (hf : f ∈ frames) :
    Merged column frames (merged column frames f) := by
  have hself : Merged column frames f :=
    ⟨⟨f, hf, List.forall₂_same.mpr fun _ _ _ _ => rfl⟩, fun r hr => .inr ⟨f, hf, r, hr, rfl⟩⟩
  unfold merged
  split
  · exact hself
  split
  · rename_i p hp
    have hp : p ∈ frames := List.mem_of_find?_eq_some hp
    refine ⟨⟨p, hp, List.forall₂_map_right_iff.mpr (List.forall₂_same.mpr fun r _ =>
      .insert column r _)⟩, fun r hr => ?_⟩
    obtain ⟨r, -, rfl⟩ := List.mem_map.mp hr
    rw [joined, field, Fields.get?_insert_self]
    obtain hnull | ⟨s, hs, hsignal⟩ := signalAt_mem (f.map fun r =>
      (canonical (field r "timestamp"), field r column)) (canonical (field r "timestamp"))
    · exact .inl hnull
    · obtain ⟨r', hr', rfl⟩ := List.mem_map.mp hs
      exact .inr ⟨f, hf, r', hr', hsignal⟩
  · exact hself

/-- The first frame with the signals has no close, and no frame has all price columns. -/
def Overlooked (column : String) (frames : List (List Fields)) : Prop :=
  priceFrame? frames = none ∧ ∃ f, frameWith? column frames = some f ∧ "close" ∉ columnsOf f

theorem has_of_isTime {r : Fields} (h : IsTime (field r "timestamp")) :
    r.has "timestamp" = true := by
  obtain ⟨s, hs⟩ := h
  rw [Fields.has_iff]
  by_contra hno
  rw [field, Fields.get?_eq_none hno] at hs
  cases hs

theorem IsFrame.complete {f : List Fields} (h : IsFrame f) (hc : "close" ∈ columnsOf f) :
    ∀ r ∈ f, r.has "timestamp" = true ∧ r.has "close" = true := fun r hr =>
  ⟨has_of_isTime (h.timed r hr), (h.columns r hr "close").mpr hc⟩

/-- The frame that the rows are taken from has a close. -/
theorem merged_complete (h : ∀ f ∈ frames, IsFrame f) {f : List Fields}
    (hf : frameWith? column frames = some f) (hseen : ¬ Overlooked column frames) :
    ∀ r ∈ merged column frames f, r.has "timestamp" = true ∧ r.has "close" = true := by
  unfold merged
  split
  · rename_i hc
    exact (h f (List.mem_of_find?_eq_some hf)).complete hc
  split
  · rename_i p hp
    have hall := List.find?_some hp
    have hclose : "close" ∈ columnsOf p := by
      simpa using List.all_eq_true.mp hall "close" (by decide)
    intro r hr
    obtain ⟨r', hr', rfl⟩ := List.mem_map.mp hr
    exact ((h p (List.mem_of_find?_eq_some hp)).complete hclose r' hr').imp
      (Fields.has_insert.mpr <| .inr ·) (Fields.has_insert.mpr <| .inr ·)
  · rename_i hc _ hp
    exact absurd ⟨hp, f, hf, hc⟩ hseen

/-- Without prices, a frame without a close gives none. -/
theorem merged_incomplete (h : ∀ f ∈ frames, IsFrame f) {f : List Fields}
    (hf : frameWith? column frames = some f) (hover : Overlooked column frames) :
    ∃ r rest, merged column frames f = r :: rest ∧ r.has "close" = false := by
  obtain ⟨hp, f', hf', hc⟩ := hover
  obtain rfl := Option.some.inj (hf.symm.trans hf')
  have hframe : IsFrame f := h f (List.mem_of_find?_eq_some hf)
  unfold merged
  rw [if_neg hc, hp]
  cases f with
  | nil => exact absurd rfl hframe.nonempty
  | cons r rest =>
    refine ⟨r, rest, rfl, ?_⟩
    rw [Bool.eq_false_iff]
    exact fun hr => hc ((hframe.columns r List.mem_cons_self "close").mp hr)

/-! ### Rows that are ready -/

/-- The number that a signal stands for, zero if it stands for none. -/
def signalNumber (v : Value) : Float :=
  match number v with
  | some x => if x == 0.0 then 0.0 else x
  | none => 0.0

theorem number_isFinite {v : Value} {x : Float} (h : number v = some x) : x.isFinite = true := by
  unfold number at h
  split at h
  · cases h
  · exact (Option.filter_eq_some_iff.mp h).2

theorem signalNumber_isFinite (v : Value) : (signalNumber v).isFinite = true := by
  have hzero : (0.0 : Float).isFinite = true := by decide +kernel
  unfold signalNumber
  split
  · rename_i x hx
    split
    · exact hzero
    · exact number_isFinite hx
  · exact hzero

/-- A signal that makes no time is a number that is none. -/
theorem number_of_not_isTime {v : Value} (h : ¬ IsTime (.float (signalNumber v))) :
    number v = some (signalNumber v) := by
  have hzero : IsTime (.float 0.0) := ⟨⟨0, 0⟩, by decide +kernel⟩
  unfold signalNumber at h ⊢
  split at h
  · rename_i x hx
    split at h
    · exact absurd hzero h
    · simp_all
  · exact absurd hzero h

/-- A float is a time, or cannot be read. -/
theorem readTime_float (x : Float) :
    IsTime (.float x) ∨ ∃ fault, readTime (.float x) = .error fault := by
  unfold IsTime readTime timeOfFloat
  dsimp only
  split
  · exact .inr ⟨_, rfl⟩
  split
  · exact .inr ⟨_, rfl⟩
  cases Stamp.ofSeconds? (if 1e11 < x.abs then x / 1000.0 else x) with
  | ok s => exact .inl ⟨s, rfl⟩
  | error fault => exact .inr ⟨_, rfl⟩

/-- The row with its signal as a number. -/
def numbered (column : String) (row : Fields) : Fields :=
  row.insert column (.float (signalNumber (field row column)))

theorem field_numbered (column : String) (row : Fields) :
    field (numbered column row) column = .float (signalNumber (field row column)) := by
  rw [numbered, field, Fields.get?_insert_self]
  rfl

theorem readyRow_eq {row : Fields} (ht : row.has "timestamp" = true)
    (hc : row.has "close" = true) : readyRow (.str column) row = .ok (numbered column row) := by
  unfold readyRow
  simp only [ht, hc]
  rfl

theorem readyRow_eq_error {row : Fields} (hc : row.has "close" = false) :
    readyRow (.str column) row = .error .incompleteRows := by
  unfold readyRow
  simp only [hc, Bool.not_false, Bool.or_true]
  rfl

/-- The rows of a frame, in the order of their times, all with a time, a close, and a number as
their signal. Only the signals have changed. -/
structure Ready (column : String) (frames : List (List Fields)) (out : List Fields) : Prop where
  inOrder : InOrder (fun r => field r "timestamp") out
  complete : ∀ r ∈ out, r.has "timestamp" = true ∧ r.has "close" = true
  numeric : ∀ r ∈ out, ∃ x : Float, r.get? column = some (.float x) ∧ x.isFinite = true
  origin : ∃ f ∈ frames, ∃ rows, out.Perm rows ∧ List.Forall₂ (AgreesBut column) f rows

/-- The signals are times, and a frame has a time that is no longer one as a number. -/
def Mistimed (column : String) (frames : List (List Fields)) (fault : Fault) : Prop :=
  column = "timestamp" ∧ ∃ f ∈ frames, ∃ r ∈ f, ∃ x,
    number (field r "timestamp") = some x ∧ readTime (.float x) = .error fault

theorem exists_of_mapM_eq_error {α β : Type} {f : α → Except Fault β} {xs : List α} {fault : Fault}
    (h : xs.mapM f = .error fault) : ∃ a ∈ xs, f a = .error fault := by
  induction xs with
  | nil => cases h
  | cons a rest ih =>
    rw [List.mapM_cons] at h
    cases ha : f a with
    | error fault' =>
      rw [ha] at h
      cases h
      exact ⟨a, List.mem_cons_self, ha⟩
    | ok b =>
      rw [ha, ok_bind] at h
      cases hrest : rest.mapM f with
      | error fault' =>
        rw [hrest] at h
        cases h
        obtain ⟨c, hc, hfault⟩ := ih hrest
        exact ⟨c, List.mem_cons_of_mem _ hc, hfault⟩
      | ok bs =>
        rw [hrest] at h
        cases h

theorem exists_of_forall₂ {R : α → β → Prop} {xs : List α} {ys : List β}
    (h : List.Forall₂ R xs ys) : ∀ b ∈ ys, ∃ a ∈ xs, R a b := by
  induction h with
  | nil => exact fun b hb => nomatch hb
  | cons hab _ ih =>
    intro b hb
    rcases List.mem_cons.mp hb with rfl | hb
    · exact ⟨_, List.mem_cons_self, hab⟩
    · obtain ⟨a, ha, hr⟩ := ih b hb
      exact ⟨a, List.mem_cons_of_mem _ ha, hr⟩

/-- Floats that are not all times cannot be sorted by: one of them cannot be read. -/
theorem sortByTime_eq_error {time : α → Value} {rows : List α}
    (hfloat : ∀ r ∈ rows, ∃ x, time r = .float x) (h : ¬ ∀ r ∈ rows, IsTime (time r)) :
    ∃ fault, sortByTime time rows = .error fault ∧
      ∃ r ∈ rows, readTime (time r) = .error fault := by
  cases hread : rows.mapM fun r => readTime (time r) with
  | ok times =>
    refine absurd (fun r hr => ?_) h
    obtain ⟨t, -, ht⟩ := exists_of_forall₂ (forall₂_of_mapM hread).flip r hr
    obtain ⟨x, hx⟩ := hfloat r hr
    rw [hx] at ht ⊢
    obtain htime | ⟨fault, hfault⟩ := readTime_float x
    · exact htime
    · rw [hfault] at ht
      cases ht
  | error fault =>
    exact ⟨fault, by rw [sortByTime, hread]; rfl, exists_of_mapM_eq_error hread⟩

/-- Rows whose times can be read are ready once they are sorted. -/
theorem Merged.ready {rows : List Fields} (h : Merged column frames rows)
    (hcomplete : ∀ r ∈ rows, r.has "timestamp" = true ∧ r.has "close" = true)
    (htimed : ∀ r ∈ rows, IsTime (field (numbered column r) "timestamp")) :
    ∃ out, sortByTime (fun r => field r "timestamp") (rows.map (numbered column)) = .ok out ∧
      Ready column frames out := by
  obtain ⟨f, hf, horigin⟩ := h.origin
  have htimes : ∀ r ∈ rows.map (numbered column), IsTime (field r "timestamp") := by
    simpa using htimed
  obtain ⟨out, hout, hperm, horder⟩ := sortByTime_inOrder (fun r => field r "timestamp") htimes
  have hsource : ∀ r ∈ out, ∃ r' ∈ rows, numbered column r' = r := fun r hr =>
    List.mem_map.mp (hperm.mem_iff.mp hr)
  refine ⟨out, hout, horder, fun r hr => ?_, fun r hr => ?_, f, hf, _, hperm, ?_⟩
  · obtain ⟨r', hr', rfl⟩ := hsource r hr
    exact (hcomplete r' hr').imp (Fields.has_insert.mpr <| .inr ·) (Fields.has_insert.mpr <| .inr ·)
  · obtain ⟨r', -, rfl⟩ := hsource r hr
    exact ⟨_, Fields.get?_insert_self r' column _, signalNumber_isFinite _⟩
  · exact List.forall₂_map_right_iff.mpr
      (horigin.imp fun _ r hr => hr.trans (.insert column r _))

/-- A number in place of a time is the only reason for which rows cannot be sorted. -/
theorem Merged.mistimed (hframes : ∀ f ∈ frames, IsFrame f) {rows : List Fields}
    (h : Merged column frames rows)
    (hmistimed : ¬ ∀ r ∈ rows, IsTime (field (numbered column r) "timestamp")) :
    ∃ fault, sortByTime (fun r => field r "timestamp") (rows.map (numbered column)) =
      .error fault ∧ Mistimed column frames fault := by
  obtain ⟨f, hf, horigin⟩ := h.origin
  obtain rfl : column = "timestamp" := by
    by_contra hne
    refine hmistimed fun r hr => ?_
    obtain ⟨r', hr', hagree⟩ := exists_of_forall₂ horigin r hr
    rw [numbered, ← (hagree.trans (.insert column r _)).field_eq (Ne.symm hne)]
    exact (hframes f hf).timed r' hr'
  have hfloat : ∀ r ∈ rows.map (numbered "timestamp"), ∃ x, field r "timestamp" = .float x := by
    intro r hr
    obtain ⟨r', -, rfl⟩ := List.mem_map.mp hr
    exact ⟨_, field_numbered "timestamp" r'⟩
  obtain ⟨fault, hsort, r, hr, hfault⟩ := sortByTime_eq_error hfloat (by simpa using hmistimed)
  obtain ⟨r', hr', rfl⟩ := List.mem_map.mp hr
  rw [field_numbered] at hfault
  have hnumber : number (field r' "timestamp") = some (signalNumber (field r' "timestamp")) :=
    number_of_not_isTime (not_isTime_of_error hfault)
  refine ⟨fault, hsort, rfl, ?_⟩
  obtain hnull | ⟨g, hg, r'', hr'', hsignal⟩ := h.signal r' hr'
  · rw [hnull] at hnumber
    cases hnumber
  · exact ⟨g, hg, r'', hr'', _, hsignal ▸ hnumber, hfault⟩

/-- Script and catalog read the same column of signals. -/
theorem signalColumn_eq {params : Fields}
    (h : param params "signal_column" (.str Builtin.defaultSignalColumn) = .str column) :
    Builtin.signalColumn params = column := by
  rw [Builtin.signalColumn, Builtin.text?]
  unfold param at h
  cases hget : params.get? "signal_column" with
  | none =>
    rw [hget] at h
    exact Value.str.inj h
  | some v =>
    rw [hget] at h
    obtain rfl : v = .str column := h
    rfl

theorem readyRows_eq (htables : tables inputs = frames.map asTable)
    (hframes : ∀ f ∈ frames, IsFrame f) {f : List Fields}
    (hf : frameWith? column frames = some f) :
    (readyRows inputs (.str column)).outcome.1 =
      (merged column frames f).mapM (readyRow (.str column)) >>=
        sortByTime fun r => field r "timestamp" := by
  rw [readyRows, mergedRows_eq htables hframes hf, pure_bind]
  cases (merged column frames f).mapM (readyRow (.str column)) <;> rfl

/-- Without a close the rows cannot be traded on. -/
theorem readyRows_of_overlooked (htables : tables inputs = frames.map asTable)
    (hframes : ∀ f ∈ frames, IsFrame f) (hover : Overlooked column frames) :
    (readyRows inputs (.str column)).outcome.1 = .error .incompleteRows := by
  obtain ⟨f, hf, -⟩ := hover.2
  obtain ⟨r, rest, hmerged, hclose⟩ := merged_incomplete hframes hf hover
  rw [readyRows_eq htables hframes hf, hmerged, List.mapM_cons, readyRow_eq_error hclose]
  rfl

/-- With a close only the times are left to be read. -/
theorem readyRows_of_not_overlooked (htables : tables inputs = frames.map asTable)
    (hframes : ∀ f ∈ frames, IsFrame f) {f : List Fields}
    (hf : frameWith? column frames = some f) (hover : ¬ Overlooked column frames) :
    (readyRows inputs (.str column)).outcome.1 = sortByTime (fun r => field r "timestamp")
      ((merged column frames f).map (numbered column)) := by
  have hcomplete := merged_complete hframes hf hover
  have hready : (merged column frames f).mapM (readyRow (.str column)) =
      .ok ((merged column frames f).map (numbered column)) :=
    mapM_eq_pure fun r hr => readyRow_eq (hcomplete r hr).1 (hcomplete r hr).2
  rw [readyRows_eq htables hframes hf, hready, ok_bind]

/-- Frames that together have times, a close and the signals of a backtest give rows that are ready
to be traded on, unless the close is overlooked or a signal takes the place of a time. -/
theorem readyRows_ready_unless_overlooked {params : Fields}
    (hcolumn : param params "signal_column" (.str Builtin.defaultSignalColumn) = .str column)
    (htables : tables inputs = frames.map asTable) (hframes : ∀ f ∈ frames, IsFrame f)
    (hcolumns : ∀ c ∈ Builtin.backtestColumns params, ∃ f ∈ frames, c ∈ columnsOf f) :
    let outcome := (readyRows inputs (.str column)).outcome.1
    (Overlooked column frames ∧ outcome = .error .incompleteRows) ∨
      (¬ Overlooked column frames ∧ ((∃ out, outcome = .ok out ∧ Ready column frames out) ∨
        ∃ fault, outcome = .error fault ∧ Mistimed column frames fault)) := by
  intro outcome
  by_cases hover : Overlooked column frames
  · exact .inl ⟨hover, readyRows_of_overlooked htables hframes hover⟩
  · obtain ⟨f, hf⟩ : ∃ f, frameWith? column frames = some f := by
      rw [← Option.isSome_iff_exists, frameWith?, List.find?_isSome]
      simpa using hcolumns column (by simp [Builtin.backtestColumns, signalColumn_eq hcolumn])
    have hmerged : Merged column frames (merged column frames f) :=
      merged_merged (List.mem_of_find?_eq_some hf)
    refine .inr ⟨hover, ?_⟩
    rw [show outcome = _ from readyRows_of_not_overlooked htables hframes hf hover]
    by_cases htimed : ∀ r ∈ merged column frames f, IsTime (field (numbered column r) "timestamp")
    · exact .inl (hmerged.ready (merged_complete hframes hf hover) htimed)
    · exact .inr (hmerged.mistimed hframes htimed)

/-- A frame among the outputs of dependencies. -/
def frameValue (rows : List Fields) : Value :=
  .map [("type", .str "dataframe"), ("data", .list (asTable rows))]

/-- A purchase and a sale, without prices. -/
def orders : List Fields :=
  [[("timestamp", .int 1), ("signal", .int 1)], [("timestamp", .int 2), ("signal", .int (-1))]]

/-- Prices of which only the close is of interest. -/
def fullPrices : List Fields :=
  [[("timestamp", .int 1), ("open", .int 1), ("high", .int 1), ("low", .int 1), ("close", .int 1),
      ("volume", .int 1)],
    [("timestamp", .int 2), ("open", .int 1), ("high", .int 1), ("low", .int 1), ("close", .int 1),
      ("volume", .int 1)]]

theorem fullPrices_ready :
    (∀ f ∈ [orders, fullPrices], IsFrame f) ∧
    (∀ c ∈ Builtin.backtestColumns [], ∃ f ∈ [orders, fullPrices], c ∈ columnsOf f) ∧
    ∃ out, (readyRows [("a", frameValue orders), ("b", frameValue fullPrices)]
        (.str "signal")).outcome.1 = .ok out ∧ Ready "signal" [orders, fullPrices] out := by
  have hframes : ∀ f ∈ [orders, fullPrices], IsFrame f := by
    intro f hf
    rcases List.mem_pair.mp hf with rfl | rfl <;>
      exact isFrame_of_keys (by decide) (by decide) (by decide +kernel)
  have hcolumns : ∀ c ∈ Builtin.backtestColumns [],
      ∃ f ∈ [orders, fullPrices], c ∈ columnsOf f := by decide +kernel
  have hcolumn : param [] "signal_column" (.str Builtin.defaultSignalColumn) = .str "signal" := rfl
  have htables : tables [("a", frameValue orders), ("b", frameValue fullPrices)] =
      [orders, fullPrices].map asTable := rfl
  refine ⟨hframes, hcolumns, ?_⟩
  obtain ⟨hover, -⟩ | ⟨-, hready | ⟨fault, -, hcolumn, -⟩⟩ :=
    readyRows_ready_unless_overlooked hcolumn htables hframes hcolumns
  · exact absurd hover.1 (by decide)
  · exact hready
  · exact absurd hcolumn (by decide)

/-- Prices with nothing but a close, and a table with times that are no longer times as numbers. -/
def bareCloses : List Fields :=
  [[("timestamp", .int 1), ("close", .int 1)], [("timestamp", .int 2), ("close", .int 1)]]

def scientificTimes : List Fields := [[("timestamp", .str "20240101e10"), ("close", .int 1)]]

/-- A close that is not recognised as a price is overlooked, and a signal replaces a time. -/
theorem bareCloses_overlooked :
    ((∀ f ∈ [orders, bareCloses], IsFrame f) ∧
      (∀ c ∈ Builtin.backtestColumns [], ∃ f ∈ [orders, bareCloses], c ∈ columnsOf f) ∧
      (readyRows [("a", frameValue orders), ("b", frameValue bareCloses)]
        (.str "signal")).outcome.1 = .error .incompleteRows) ∧
    (∀ f ∈ [scientificTimes], IsFrame f) ∧
      (∀ c ∈ Builtin.backtestColumns [("signal_column", .str "timestamp")],
        ∃ f ∈ [scientificTimes], c ∈ columnsOf f) ∧
      (readyRows [("a", frameValue scientificTimes)] (.str "timestamp")).outcome.1 =
        .error (.stamp (.year 6415802)) := by
  have hbare : ∀ f ∈ [orders, bareCloses], IsFrame f := by
    intro f hf
    rcases List.mem_pair.mp hf with rfl | rfl <;>
      exact isFrame_of_keys (by decide) (by decide) (by decide +kernel)
  have htimes : ∀ f ∈ [scientificTimes], IsFrame f := by
    intro f hf
    obtain rfl := List.mem_singleton.mp hf
    exact isFrame_of_keys (by decide) (by decide) (by decide +kernel)
  refine ⟨⟨hbare, by decide +kernel, ?_⟩, htimes, by decide +kernel, ?_⟩
  · exact readyRows_of_overlooked rfl hbare ⟨by decide +kernel, orders, rfl, by decide⟩
  · have hover : ¬ Overlooked "timestamp" [scientificTimes] := by
      rintro ⟨-, f, hf, hc⟩
      obtain rfl : scientificTimes = f := Option.some.inj hf
      exact hc (by decide)
    have hread : readTime (field (numbered "timestamp" [("timestamp", .str "20240101e10"),
        ("close", .int 1)]) "timestamp") = .error (.stamp (.year 6415802)) := by decide +kernel
    rw [readyRows_of_not_overlooked (f := scientificTimes) rfl htimes rfl hover, merged,
      if_pos (by decide), scientificTimes, List.map_singleton, sortByTime, List.mapM_cons, hread]
    rfl

end Flowline.Market.Backtest
