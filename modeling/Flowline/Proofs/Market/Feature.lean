import Flowline.Proofs.Market.Table
import Flowline.Proofs.Market.Wish
import Flowline.Proofs.Validation.Parameters

/-!
# Features that the catalog promises

Sound wishes that validation lets pass give every row the columns that the catalog promises of the
node. The rows only grow on the way: each feature adds its columns to the table that the ones before
it left.
-/
namespace Flowline.Market.Feature

open Builtin

/-! ### Rows in the making -/

/-- The rows in the making have grown from those given, by the promised columns among others. -/
structure Work.Holds (rows : List Fields) (promised : List String) (w : Work) : Prop where
  grown : TableGrows rows w.rows
  covers : Covers rows.length (columnsOf rows) w.cols
  has : ∀ r ∈ w.rows, ∀ c ∈ promised, r.has c = true
  untimed : "timestamp" ∉ w.added

variable {permitted : Fault → Prop} {rows : List Fields} {promised : List String} {w : Work}

theorem Work.Holds.add (h : Work.Holds rows promised w) {name : String} (hname : name ≠ "timestamp")
    {c : Column Float} (hc : c.length = rows.length) :
    Work.Holds rows (name :: promised) (w.add name c) := by
  have hlen : (c.map cell).length = w.rows.length := by
    rw [List.length_map, hc, h.grown.length_eq]
  have hgrows : TableGrows w.rows (w.add name c).rows := setCells_grows hname hlen
  refine ⟨h.grown.trans hgrows, h.covers.put hc, fun r hr d hd => ?_, ?_⟩
  · rcases List.mem_cons.mp hd with rfl | hd
    · exact setCells_has r hr
    · exact hgrows.has (fun r hr => h.has r hr d hd) r hr
  · simpa [Work.add] using ⟨h.untimed, hname.symm⟩

theorem Work.Holds.mono {promised' : List String} (h : Work.Holds rows promised w)
    (hsub : ∀ c ∈ promised', c ∈ promised) : Work.Holds rows promised' w :=
  ⟨h.grown, h.covers, fun r hr c hc => h.has r hr c (hsub c hc), h.untimed⟩

/-- The columns of a feature are added under its name. -/
theorem Work.Holds.derived (h : Work.Holds rows promised w) {base : String}
    (hbase : base ≠ "timestamp") {d : Derived Float} (hrows : ∀ p ∈ d, p.2.length = rows.length)
    (hends : ∀ e ∈ d.map (·.1), e = "" ∨ '_' ∈ e.toList) :
    Work.Holds rows (d.map (base ++ ·.1) ++ promised)
      (d.foldl (fun w (ending, c) => w.add (base ++ ending) c) w) := by
  induction d generalizing w promised with
  | nil => exact h
  | cons p rest ih =>
    have hname : base ++ p.1 ≠ "timestamp" := by
      rcases hends p.1 (by simp) with hp | hp
      · simpa [hp] using hbase
      · exact ne_timestamp_of_line (by simp [hp])
    have hrest := ih (h.add hname (hrows p List.mem_cons_self))
      (fun q hq => hrows q (List.mem_cons_of_mem _ hq))
      (fun e he => hends e (List.mem_cons_of_mem _ he))
    refine hrest.mono fun c hc => ?_
    simp only [List.map_cons, List.cons_append, List.mem_cons, List.mem_append] at hc ⊢
    tauto

theorem mapM_toRow (rows : List Fields) : (rows.map Value.map).mapM toRow = .ok rows := by
  induction rows with
  | nil => rfl
  | cons row rest ih =>
    rw [List.map_cons, List.mapM_cons, ih]
    rfl

theorem Work.Holds.timed (h : Work.Holds rows promised w) (htimes : ∀ r ∈ rows, Timed r)
    (method : FillMethod) : ∀ r ∈ fill method w.added w.rows, Timed r := by
  have hrows := h.grown.all (fun _ _ hr => hr.timed) htimes
  by_cases hdrop : method = .drop
  · subst hdrop
    exact fun r hr => hrows r (fill_drop_subset _ _ r hr)
  · exact (fill_grows hdrop h.untimed w.rows).all (fun _ _ hr => hr.timed) hrows

theorem initial_holds (rows : List Fields) :
    Work.Holds rows []
      { rows, cols := (columnsOf rows).map fun name => (name, numbers rows name) } := by
  refine ⟨.refl rows, ⟨fun p hp => ?_, fun name hname => ?_⟩, fun _ _ _ hc => (nomatch hc),
    List.not_mem_nil⟩
  · obtain ⟨name, -, rfl⟩ := List.mem_map.mp hp
    simp [numbers]
  · exact Option.isSome_iff_exists.mp (List.lookup_isSome_iff.mpr
      ⟨(name, numbers rows name), List.mem_map_of_mem hname, by simp⟩)

/-- A row with all prices at one value. -/
def flatRow (price : Int) : Fields :=
  [("timestamp", .str "2024-01-05"), ("open", .int price), ("high", .int price),
    ("low", .int price), ("close", .int price), ("volume", .int price)]

/-- A node with some wishes. -/
def wishing (wishes : List Fields) : Declaration :=
  { id := "features", type := "FeatureGeneratorNode"
    params := [("features", .list (wishes.map .map))], dependsOn := [] }

end Flowline.Market.Feature
