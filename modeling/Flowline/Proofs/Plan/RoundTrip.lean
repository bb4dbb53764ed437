import Flowline.Proofs.Document.Sound
import Flowline.Proofs.Plan.Build
import Flowline.Proofs.Plan.Text

/-!
# The text of a compiled plan

A plan that was compiled is read back from its text field by field, if the parameters of its nodes
nest no deeper than the limit of the text leaves to them. Three containers stand around the
parameters in a plan, and as few as two in a document, so that there are documents whose plans cannot
be read back.
-/
namespace Flowline

open Json (ReadsBack)

/-- The arities of all types fit a word. -/
def Catalog.Fits (catalog : Catalog) : Prop := ∀ c ∈ catalog.contracts, c.input.arity.Fits

namespace Plan

variable {catalog : Catalog} {source : String} {format : Format} {now : Moment} {plan : Plan}

/-- A compiled plan can be written, whatever its source. -/
theorem writable_of_compile (h : compile catalog source format now = .ok plan)
    (hcatalog : catalog.Fits) (hnow : now.IsCivil) (hsize : plan.nodes.length ≤ 0xFFFFFFFFFFFFFFFF) :
    plan.Writable := by
  obtain ⟨doc, hread, hcompiled⟩ := compiled_of_compile h
  obtain ⟨hstamp, hcount⟩ := stamped_of_compile h
  refine ⟨fun n hn => ?_, hcount ▸ hsize, hstamp ▸ hnow⟩
  obtain ⟨⟨d, i⟩, hd, rfl⟩ := hcompiled.mem_nodes.mp hn
  have hmem := List.fst_mem_of_mem_zipIdx hd
  obtain ⟨c, hc⟩ := hcompiled.structured.known d hmem
  refine ⟨Document.read_sound hread d hmem, ?_, ?_⟩
  · have hcontract : (nodeOf catalog doc.nodes d i).input.arity = c.input.arity := by
      rw [nodeOf, hc]
      rfl
    exact hcontract ▸ hcatalog c (List.mem_of_find?_eq_some hc)
  · have hlen : i < plan.nodes.length := by
      rw [hcompiled.nodes, List.length_map, List.length_zipIdx]
      exact List.snd_lt_of_mem_zipIdx hd
    exact Nat.le_of_lt (Nat.lt_of_lt_of_le hlen hsize)

/-- A compiled plan is read back from its text exactly if the parameters of its nodes nest at most
124 containers. -/
theorem compile_readable (h : compile catalog source format now = .ok plan)
    (hcatalog : catalog.Fits) (hnow : now.IsCivil) (hsize : plan.nodes.length ≤ 0xFFFFFFFFFFFFFFFF)
    (hnumbers : ∀ n ∈ plan.nodes, ∀ x ∈ (Value.map n.params).floats,
      x.isFinite = true → ReadsBack x) :
    parse? plan.render =
      if ∀ n ∈ plan.nodes, (Value.map n.params).depth ≤ 124 then some plan else none := by
  have hwritable := writable_of_compile h hcatalog hnow hsize
  exact parse?_render hwritable fun n hn x hx =>
    hnumbers n hn x hx ((hwritable.nodes n hn).params.finite x hx)

/-! ### Documents of one node -/

/-- The text of a document whose node has one row with one cell. -/
def cellSource (cell : Value) : String :=
  Json.compact (.list [.map [("id", .str "a"), ("type", .str "InlineDataNode"),
    ("params", .map [("rows", .list [.map [("close", cell)]])])]])

/-- The document in that text. -/
def cellDocument (cell : Value) : Document :=
  { nodes := [⟨"a", "InlineDataNode", [("rows", .list [.map [("close", cell)]])], []⟩] }

/-- Five containers stand around the cell, and the reader's limit is 127. -/
theorem compile_cellSource {cell : Value} (h : cell.Sound) (hfloats : ∀ x ∈ cell.floats, ReadsBack x)
    (hdepth : cell.depth ≤ 122) :
    compile catalog (cellSource cell) .json now = compileDocument catalog (cellDocument cell) now := by
  have hread : Json.read (cellSource cell) = some (.list [.map [("id", .str "a"),
      ("type", .str "InlineDataNode"), ("params", .map [("rows", .list [.map [("close", cell)]])])]]) := by
    rw [cellSource, Json.read_compact (by simp [h])
      (by simpa [Value.floats, Value.itemsFloats, Value.fieldsFloats] using hfloats), if_pos]
    simp only [Value.depth, Value.itemsDepth, Value.fieldsDepth, Json.depthLimit]
    omega
  rw [compile, Document.read, Format.read, hread]
  rfl

/-- As many lists within one another. -/
def nested : Nat → Value
  | 0 => .null
  | n + 1 => .list [nested n]

theorem nested_sound : ∀ n, (nested n).Sound
  | 0 => .null
  | n + 1 => .list (List.forall_mem_singleton.mpr (nested_sound n))

theorem depth_nested (n : Nat) : (nested n).depth = n := by
  induction n with
  | zero => rfl
  | succ n ih => simp [nested, Value.depth, Value.itemsDepth, ih]

theorem floats_nested (n : Nat) : (nested n).floats = [] := by
  induction n with
  | zero => rfl
  | succ n ih => simp [nested, Value.floats, Value.itemsFloats, ih]

/-- The first noon of a year. -/
def noon : Moment := ⟨⟨2024, 1, 1⟩, 12, 0, 0, 0⟩

theorem noon_isCivil : noon.IsCivil := by decide

instance (a : Arity) : Decidable a.Fits :=
  decidable_of_iff (a.min ≤ 0xFFFFFFFFFFFFFFFF ∧ a.max.all (· ≤ 0xFFFFFFFFFFFFFFFF) = true) (by
    cases hmax : a.max with
    | none => exact ⟨fun h => ⟨h.1, by simp [hmax]⟩, fun h => ⟨h.min, rfl⟩⟩
    | some hi =>
      exact ⟨fun h => ⟨h.1, by simpa [hmax] using h.2⟩, fun h => ⟨h.min, by simpa using h.max hi hmax⟩⟩)

theorem fits_builtin : Catalog.builtin.Fits := by
  have hall : ∀ c ∈ Builtin.contracts, c.input.arity.Fits := by decide
  exact hall

theorem cellSource_readable : ∃ plan, compile .builtin (cellSource (.float 0.1)) .json noon = .ok plan ∧
    parse? plan.render = some plan := by
  have hback : ReadsBack 0.1 := by decide +kernel
  obtain ⟨plan, h, hsize, hnumbers, hdepth⟩ : ∃ plan,
      compileDocument .builtin (cellDocument (.float 0.1)) noon = .ok plan ∧
        plan.nodes.length ≤ 0xFFFFFFFFFFFFFFFF ∧
        (∀ n ∈ plan.nodes, ∀ x ∈ (Value.map n.params).floats, x.isFinite = true → ReadsBack x) ∧
        ∀ n ∈ plan.nodes, (Value.map n.params).depth ≤ 124 := exists_of_any (by decide +kernel)
  rw [← compile_cellSource (.float (by decide +kernel)) (List.forall_mem_singleton.mpr hback)
    (Nat.zero_le _)] at h
  exact ⟨plan, h, (compile_readable h fits_builtin noon_isCivil hsize hnumbers).trans (if_pos hdepth)⟩

/-- A document of 127 containers compiles to a plan of 128, whose text cannot be read. -/
theorem nested_unreadable :
    ∃ plan, compile .builtin (cellSource (nested 122)) .json noon = .ok plan ∧
      parse? plan.render = none := by
  obtain ⟨plan, h, hsize, hnumbers, hdepth⟩ : ∃ plan,
      compileDocument .builtin (cellDocument (nested 122)) noon = .ok plan ∧
        plan.nodes.length ≤ 0xFFFFFFFFFFFFFFFF ∧
        (∀ n ∈ plan.nodes, ∀ x ∈ (Value.map n.params).floats, ReadsBack x) ∧
        ¬ ∀ n ∈ plan.nodes, (Value.map n.params).depth ≤ 124 := exists_of_any (by decide +kernel)
  rw [← compile_cellSource (nested_sound 122) (by simp [floats_nested])
    (by simp [depth_nested])] at h
  have hwritable := writable_of_compile h fits_builtin noon_isCivil hsize
  exact ⟨plan, h, (parse?_render hwritable hnumbers).trans (if_neg hdepth)⟩

end Plan
end Flowline
