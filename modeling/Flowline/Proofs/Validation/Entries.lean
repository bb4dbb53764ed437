import Flowline.Proofs.Catalog.Answers
import Flowline.Proofs.Decimal.Digits
import Flowline.Proofs.Document.Distinct
import Flowline.Proofs.Text.Scan
import Flowline.Proofs.Validation.Structure

/-!
# Entries that diagnostics point at

What is found wrong with one dependency is reported with an index. For repeated and unknown targets
this is the index of the entry as it is written. For shapes that are not accepted it is the index
after repetitions are taken out: the two are the same exactly if nothing is repeated up to there.
-/
namespace Flowline.Validation

/-- The field of the diagnostic ends in the entry at index `i` of dependencies. -/
def PointsAt (d : Diagnostic) (i : Nat) : Prop :=
  ∃ before, d.field = some (before ++ s!"depends_on[{i}]")

/-- The diagnostic is about a target that the node names: it is repeated, or there is no such node,
or the node does not accept its shape. -/
inductive About (n : Declaration) (target : String) : Diagnostic → Prop
  | repeated (place : String) :
      About n target (((Finding.repeatedDependency n.id target).report.atNode n.id).atField place)
  | unknown (place : String) :
      About n target (((Finding.unknownDependency n.id target).report.atNode n.id).atField place)
  | unaccepted (place : String) (accepted : List Shape) (produced : Shape) :
      About n target
        (((Finding.wrongShape n.id accepted target produced).report.atNode n.id).atField place)

/-! ### Indices in fields -/

theorem toList_entry (before : String) (i : Nat) : (before ++ s!"depends_on[{i}]").toList =
    before.toList ++ "depends_on".toList ++ '[' :: Nat.toDigits 10 i ++ [']'] := by
  have hdigits : (toString i).toList = Nat.toDigits 10 i := by
    rw [Nat.toString_eq_repr, Nat.toList_repr]
  rw [String.toList_append, String.toList_append, String.toList_append, hdigits]
  simp only [List.append_assoc, List.cons_append]
  rfl

/-- The digits between the last two brackets are those of the index. -/
theorem entry_inj {before before' : String} {i j : Nat}
    (h : before ++ s!"depends_on[{i}]" = before' ++ s!"depends_on[{j}]") : i = j := by
  have hdigit : ∀ k, ∀ c ∈ (Nat.toDigits 10 k).reverse, (c != '[') = true := by
    intro k c hc
    have hisDigit := Decimal.isDigit_toDigits (List.mem_reverse.mp hc)
    simp only [bne_iff_ne, ne_eq]
    rintro rfl
    cases hisDigit
  have hlist := congrArg String.toList h
  rw [toList_entry, toList_entry] at hlist
  have hreversed := congrArg (fun l => l.reverse.takeWhile (· != '['))
    (List.append_cancel_right hlist)
  simp only [List.reverse_append, List.reverse_cons, List.append_assoc] at hreversed
  rw [Text.takeWhile_run (hdigit i) (by rfl), Text.takeWhile_run (hdigit j) (by rfl),
    List.reverse_inj] at hreversed
  rw [← Decimal.natOfDigits_toDigits i, hreversed, Decimal.natOfDigits_toDigits]

/-- A field that does not end in a bracket points at no entry. -/
theorem not_pointsAt {d : Diagnostic} {i : Nat}
    (h : ∀ p ∈ d.field, p.toList.getLast? ≠ some ']') : ¬ PointsAt d i := by
  rintro ⟨before, hfield⟩
  refine h _ hfield ?_
  rw [toList_entry, List.getLast?_concat]

/-! ### Repeated and unknown targets -/

theorem of_mem_targetFaults {ids : List String} {k j : Nat} {n : Declaration}
    {seen targets : List String} {d : Diagnostic} (hd : d ∈ targetFaults ids k n j seen targets) :
    ∃ i target, targets[i]? = some target ∧ About n target d ∧
      d.field = some (nodePlace k ++ s!".depends_on[{j + i}]") := by
  induction targets generalizing j seen with
  | nil => cases hd
  | cons t targets ih =>
    rcases List.mem_append.mp hd with hd | hd
    · refine ⟨0, t, rfl, ?_⟩
      split at hd
      · obtain rfl := List.mem_singleton.mp hd
        exact ⟨.repeated _, rfl⟩
      · split at hd
        · cases hd
        · obtain rfl := List.mem_singleton.mp hd
          exact ⟨.unknown _, rfl⟩
    · obtain ⟨i, target, hi, habout, hfield⟩ := ih hd
      refine ⟨i + 1, target, hi, habout, ?_⟩
      rw [hfield, show j + 1 + i = j + (i + 1) by omega]

theorem not_pointsAt_of_mem_idFaults {k i : Nat} {seen : List String} {nodes : List Declaration}
    {d : Diagnostic} (hd : d ∈ idFaults k seen nodes) : ¬ PointsAt d i := by
  induction nodes generalizing k seen with
  | nil => cases hd
  | cons n nodes ih =>
    rcases List.mem_append.mp hd with hd | hd
    · rcases List.mem_append.mp hd with hd | hd
      · split at hd
        · obtain rfl := List.mem_singleton.mp hd
          exact not_pointsAt nofun
        · cases hd
      · split at hd
        · cases hd
        · obtain rfl := List.mem_singleton.mp hd
          refine not_pointsAt fun p hp => ?_
          obtain rfl := Option.some.inj hp
          simp
    · exact ih hd

/-- The place of an entry, with the entry apart. -/
theorem entryPlace_eq (k i : Nat) :
    nodePlace k ++ s!".depends_on[{i}]" = nodePlace k ++ "." ++ s!"depends_on[{i}]" := by
  have hdot : s!".depends_on[{i}]" = "." ++ s!"depends_on[{i}]" := by
    rw [← String.append_assoc, ← String.append_assoc]
    rfl
  rw [hdot]
  exact (String.append_assoc ..).symm

/-- What is reported with an index when the structure is looked at is about the entry that is
written there. -/
theorem of_mem_structureFaults {catalog : Catalog} {doc : Document} {d : Diagnostic} {i : Nat}
    (hd : d ∈ structureFaults catalog doc) (hi : PointsAt d i) :
    ∃ k n target, doc.nodes[k]? = some n ∧ d.field = some (nodePlace k ++ s!".depends_on[{i}]") ∧
      About n target d ∧ n.dependsOn[i]? = some target := by
  unfold structureFaults at hd
  split at hd
  · obtain rfl := List.mem_singleton.mp hd
    exact absurd hi (not_pointsAt nofun)
  · rcases List.mem_append.mp hd with hd | hd
    · exact absurd hi (not_pointsAt_of_mem_idFaults hd)
    · obtain ⟨⟨n, k⟩, hn, hd⟩ := List.mem_flatMap.mp hd
      have hk : doc.nodes[k]? = some n := List.mem_zipIdx_iff_getElem?.mp hn
      dsimp only at hd
      unfold nodeFaults at hd
      split at hd
      · obtain ⟨j, target, hj, habout, hfield⟩ := of_mem_targetFaults hd
        rw [Nat.zero_add] at hfield
        obtain ⟨before, hbefore⟩ := hi
        rw [hfield, entryPlace_eq, Option.some_inj] at hbefore
        obtain rfl := entry_inj hbefore
        exact ⟨k, n, target, hk, hfield, habout, hj⟩
      · obtain rfl := List.mem_singleton.mp hd
        refine absurd hi (not_pointsAt fun p hp => ?_)
        obtain rfl := Option.some.inj hp
        simp

/-! ### Shapes that are not accepted -/

variable {c : Contract} {n : Declaration}

theorem of_mem_faults_foldl_add {inputs : List ((String × Schema) × Nat)} {o : Offer}
    {d : Diagnostic} (hd : d ∈ (inputs.foldl (fun o ((producer, produced), i) =>
      o.add c n i producer produced) o).faults) :
    d ∈ o.faults ∨ ∃ p i, (p, i) ∈ inputs ∧ About n p.1 d ∧
      d.field = some s!"depends_on[{i}]" := by
  induction inputs generalizing o with
  | nil => exact Or.inl hd
  | cons q inputs ih =>
    obtain ⟨⟨producer, produced⟩, j⟩ := q
    rcases ih hd with hd | ⟨p, i, hp, habout, hfield⟩
    · dsimp only [Offer.add] at hd
      split at hd
      · exact Or.inl hd
      · rcases List.mem_append.mp hd with hd | hd
        · exact Or.inl hd
        · obtain rfl := List.mem_singleton.mp hd
          exact Or.inr ⟨(producer, produced), j, List.mem_cons_self, .unaccepted _ _ _, rfl⟩
    · exact Or.inr ⟨p, i, List.mem_cons_of_mem _ hp, habout, hfield⟩

theorem not_pointsAt_atDependencies (f : Finding) (i : Nat) :
    ¬ PointsAt (atDependencies n f) i := by
  refine not_pointsAt fun p hp => ?_
  obtain rfl := Option.some.inj hp
  decide

theorem of_mem_inputFaults {inputs : List (String × Schema)} {d : Diagnostic} {i : Nat}
    (hd : d ∈ inputFaults c n inputs) (hi : PointsAt d i) :
    ∃ p, inputs[i]? = some p ∧ About n p.1 d := by
  unfold inputFaults at hd
  dsimp only at hd
  rcases List.mem_append.mp hd with hd | hd
  · rcases List.mem_append.mp hd with hd | hd
    · split at hd
      · cases hd
      · obtain rfl := List.mem_singleton.mp hd
        exact absurd hi (not_pointsAt_atDependencies _ i)
    · rcases of_mem_faults_foldl_add hd with hd | ⟨p, j, hp, habout, hfield⟩
      · cases hd
      · obtain ⟨before, hbefore⟩ := hi
        rw [hfield, Option.some_inj] at hbefore
        obtain rfl := entry_inj (String.empty_append.trans hbefore)
        exact ⟨p, List.mem_zipIdx_iff_getElem?.mp hp, habout⟩
  · unfold columnFaults at hd
    dsimp only at hd
    split at hd
    · cases hd
    · obtain rfl := List.mem_singleton.mp hd
      exact absurd hi (not_pointsAt_atDependencies _ i)

/-- In any state of the resolver: what is reported with an index is about the entry there once
repetitions are taken out. -/
theorem compatibilityFaults_points (catalog : Catalog) (n : Declaration) :
    Yields (fun _ => True) (compatibilityFaults catalog n) fun ds => ∀ d ∈ ds, ∀ i, PointsAt d i →
      ∃ target, About n target d ∧ n.dependencies[i]? = some target := by
  unfold compatibilityFaults
  cases catalog.get? n.type with
  | none => exact .pure (List.forall_mem_nil _)
  | some c =>
    dsimp only
    split
    · refine .pure fun d hd i hi => ?_
      split at hd
      · cases hd
      · obtain rfl := List.mem_singleton.mp hd
        exact absurd hi (not_pointsAt_atDependencies _ i)
    · refine .bind (p := fun _ => True) (fun _ _ => ⟨trivial, trivial⟩) fun schemas _ => .pure ?_
      intro d hd i hi
      obtain ⟨p, hp, habout⟩ := of_mem_inputFaults hd hi
      exact ⟨p.1, habout, (List.getElem?_zip_eq_some.mp hp).1⟩

theorem of_mem_allCompatibilityFaults {catalog : Catalog} {doc : Document} {d : Diagnostic}
    {i : Nat} (hd : d ∈ allCompatibilityFaults catalog doc) (hi : PointsAt d i) :
    ∃ n ∈ doc.nodes, ∃ target, About n target d ∧ n.dependencies[i]? = some target := by
  have hfaults := (Yields.mapM (fun n (_ : n ∈ doc.nodes) => compatibilityFaults_points catalog n)
    { catalog, nodes := doc.nodes } trivial).1
  obtain ⟨ds, hds, hd⟩ := List.mem_flatten.mp hd
  obtain ⟨n, hn, hpoints⟩ := exists_mem_zip hfaults.flip hds
  exact ⟨n, (List.of_mem_zip hn).2, hpoints d hd i hi⟩

/-- What is reported with an index. Of the structure: the diagnostic is about the entry that is
written at the index, in the node at the place that the field begins with. Of the inputs: it is
about the target at the index among those that are different, and this is the entry that is written
there exactly if nothing is repeated up to it. -/
theorem points_right_unless_shifted (catalog : Catalog) (doc : Document) (d : Diagnostic) (i : Nat)
    (hi : PointsAt d i) :
    (d ∈ structureFaults catalog doc → ∃ k n target, doc.nodes[k]? = some n ∧
      d.field = some (nodePlace k ++ s!".depends_on[{i}]") ∧ About n target d ∧
        n.dependsOn[i]? = some target) ∧
    (d ∈ allCompatibilityFaults catalog doc → ∃ n ∈ doc.nodes, ∃ target, About n target d ∧
      n.dependencies[i]? = some target ∧
        (n.dependsOn[i]? = some target ↔ (n.dependsOn.take (i + 1)).Nodup)) := by
  refine ⟨fun hd => of_mem_structureFaults hd hi, fun hd => ?_⟩
  obtain ⟨n, hn, target, habout, htarget⟩ := of_mem_allCompatibilityFaults hd hi
  exact ⟨n, hn, target, habout, htarget, getElem?_iff_nodup_take htarget⟩

/-- A backtest of prices, listed twice, and of the report of another backtest. -/
def reviewDocument : Document where
  nodes := [⟨"prices", "InlineDataNode", [("rows", .list [.map [("timestamp", .int 1),
      ("close", .int 10), ("signal", .int 1)]])], []⟩,
    ⟨"report", "BacktestNode", [], ["prices"]⟩,
    ⟨"review", "BacktestNode", [], ["prices", "prices", "report"]⟩]

def repeatedPrices : Diagnostic :=
  ((Finding.repeatedDependency "review" "prices").report.atNode "review").atField
    "nodes[2].depends_on[1]"

def unacceptedReport : Diagnostic :=
  ((Finding.wrongShape "review" Builtin.tabular "report" .backtestResults).report.atNode
    "review").atField "depends_on[1]"

theorem reviewDocument_faults :
    structureFaults Catalog.builtin reviewDocument = [repeatedPrices] ∧
      allCompatibilityFaults Catalog.builtin reviewDocument = [unacceptedReport] := by
  decide +kernel

/-- The diagnostics of the document both have the index one. -/
theorem reviewDocument_points :
    (PointsAt repeatedPrices 1 ∧
      repeatedPrices ∈ structureFaults Catalog.builtin reviewDocument ∧
      ∃ k n target, reviewDocument.nodes[k]? = some n ∧
        repeatedPrices.field = some (nodePlace k ++ ".depends_on[1]") ∧
        About n target repeatedPrices ∧ n.dependsOn[1]? = some target) ∧
    (PointsAt unacceptedReport 1 ∧
      unacceptedReport ∈ allCompatibilityFaults Catalog.builtin reviewDocument ∧
      ∃ n ∈ reviewDocument.nodes, ∃ target, About n target unacceptedReport ∧
        n.dependencies[1]? = some target ∧
          (n.dependsOn[1]? = some target ↔ (n.dependsOn.take 2).Nodup)) := by
  obtain ⟨hstructure, hinputs⟩ := reviewDocument_faults
  have hrepeated : PointsAt repeatedPrices 1 := ⟨"nodes[2].", rfl⟩
  have hunaccepted : PointsAt unacceptedReport 1 := ⟨"", rfl⟩
  have hmem : repeatedPrices ∈ structureFaults Catalog.builtin reviewDocument := by
    rw [hstructure]
    exact List.mem_singleton_self _
  have hmem' : unacceptedReport ∈ allCompatibilityFaults Catalog.builtin reviewDocument := by
    rw [hinputs]
    exact List.mem_singleton_self _
  exact ⟨⟨hrepeated, hmem, (points_right_unless_shifted _ _ _ 1 hrepeated).1 hmem⟩,
    hunaccepted, hmem', (points_right_unless_shifted _ _ _ 1 hunaccepted).2 hmem'⟩

/-- The message on a shape ends in the name of the target and the shape. -/
theorem isSuffix_message_wrongShape (node producer : String) (accepted : List Shape)
    (produced : Shape) :
    (s!" input, but '{producer}' produces {produced.name}").toList <:+
      (Finding.wrongShape node accepted producer produced).message.toList := by
  let shapes := " or ".intercalate (accepted.map Shape.name)
  have hmessage : (Finding.wrongShape node accepted producer produced).message =
      s!"Node '{node}' expects {shapes}" ++
        s!" input, but '{producer}' produces {produced.name}" := by
    change s!"Node '{node}' expects {shapes} input, but '{producer}' produces {produced.name}" = _
    simp only [String.append_assoc]
  exact ⟨_, String.toList_append.symm.trans (congrArg String.toList hmessage.symm)⟩

/-- The report is the entry at index two, and the diagnostic about it has the index one. -/
theorem unacceptedReport_shifted :
    unacceptedReport ∈ allCompatibilityFaults Catalog.builtin reviewDocument ∧
      PointsAt unacceptedReport 1 ∧
      ∀ n ∈ reviewDocument.nodes, ∀ target, About n target unacceptedReport →
        n.dependsOn[1]? ≠ some target := by
  refine ⟨?_, ⟨"", rfl⟩, fun n hn target habout htarget => ?_⟩
  · rw [reviewDocument_faults.2]
    exact List.mem_singleton_self _
  · simp only [reviewDocument, List.mem_cons, List.not_mem_nil, or_false] at hn
    obtain rfl | rfl | rfl := hn
    · cases htarget
    · cases htarget
    · obtain rfl : "prices" = target := Option.some.inj htarget
      generalize hd : unacceptedReport = d at habout
      cases habout with
      | repeated place =>
        have hcode : "E303" = "W001" := congrArg Diagnostic.code hd
        exact absurd hcode (by decide)
      | unknown place =>
        have hcode : "E303" = "E010" := congrArg Diagnostic.code hd
        exact absurd hcode (by decide)
      | unaccepted place accepted produced =>
        -- From the name of the target on the message ends in another way.
        have hmessage : unacceptedReport.message =
            (Finding.wrongShape "review" accepted "prices" produced).message :=
          congrArg Diagnostic.message hd
        have hend := isSuffix_message_wrongShape "review" "prices" accepted produced
        rw [← hmessage] at hend
        cases produced <;> exact absurd hend (by decide)

end Flowline.Validation
