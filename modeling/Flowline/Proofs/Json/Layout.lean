import Flowline.Json.Printer
import Flowline.Json.Reader
import Flowline.Proofs.Data.Value
import Flowline.Proofs.Json.Token

/-!
# Layouts of JSON text

A printed text as the characters of its values with blanks between them. The one-line text and the
indented text are the same text in two layouts, so what is proved of a text in any layout holds of
both.
-/
namespace Flowline.Json

/-- Where blanks stand in a text. -/
structure Layout where
  /-- Before what a container at some level holds, and before its closing bracket. -/
  gap : Nat → List Char
  /-- Between the colon behind a key and its value. -/
  beforeValue : List Char
  gap_blank : ∀ level, ∀ c ∈ gap level, isJsonBlank c = true
  beforeValue_blank : ∀ c ∈ beforeValue, isJsonBlank c = true

namespace Layout

/-- No blanks at all. -/
def oneLine : Layout where
  gap _ := []
  beforeValue := []
  gap_blank _ := List.forall_mem_nil _
  beforeValue_blank := List.forall_mem_nil _

/-- A line for every item and field, two blanks for every level. -/
def indented : Layout where
  gap level := '\n' :: List.replicate (2 * level) ' '
  beforeValue := [' ']
  gap_blank level := by
    rw [List.forall_mem_cons]
    refine ⟨rfl, fun c hc => ?_⟩
    rw [(List.mem_replicate.mp hc).2]
    rfl
  beforeValue_blank := by simp [isJsonBlank]

variable (layout : Layout)

mutual

/-- The text of a value whose fields stand at the next level. -/
def text (level : Nat) : Value → List Char
  | .list [] => ['[', ']']
  | .list (v :: rest) =>
    '[' :: (layout.gap (level + 1) ++ (text (level + 1) v ++ moreItems level rest))
  | .map [] => ['\x7b', '\x7d']
  | .map ((key, v) :: rest) =>
    '\x7b' :: (layout.gap (level + 1) ++ (quoteChars key.toList ++
      ':' :: (layout.beforeValue ++ (text (level + 1) v ++ moreFields level rest))))
  | .null => ['n', 'u', 'l', 'l']
  | .bool true => ['t', 'r', 'u', 'e']
  | .bool false => ['f', 'a', 'l', 's', 'e']
  | .int n => (toString n).toList
  | .float x => (number x).toList
  | .str s => quoteChars s.toList

/-- The items after the first, and the end of the list. -/
def moreItems (level : Nat) : List Value → List Char
  | [] => layout.gap level ++ [']']
  | v :: rest =>
    ',' :: (layout.gap (level + 1) ++ (text (level + 1) v ++ moreItems level rest))

/-- The fields after the first, and the end of the mapping. -/
def moreFields (level : Nat) : List (String × Value) → List Char
  | [] => layout.gap level ++ ['\x7d']
  | (key, v) :: rest =>
    ',' :: (layout.gap (level + 1) ++ (quoteChars key.toList ++
      ':' :: (layout.beforeValue ++ (text (level + 1) v ++ moreFields level rest))))

end

/-! ### The printed texts -/

theorem toList_quote (s : String) : (quote s).toList = quoteChars s.toList := String.toList_ofList

theorem compactItems_eq {level : Nat} {v : Value} {rest : List Value}
    (h : ∀ w ∈ v :: rest, (compact w).toList = oneLine.text (level + 1) w) :
    (compactItems (v :: rest)).toList ++ [']'] =
      oneLine.text (level + 1) v ++ oneLine.moreItems level rest := by
  induction rest generalizing v with
  | nil => rw [compactItems, h v List.mem_cons_self]; rfl
  | cons w rest ih =>
    have hrest := ih fun u hu => h u (List.mem_cons_of_mem _ hu)
    simp only [compactItems, String.toList_append, List.append_assoc, hrest,
      h v List.mem_cons_self]
    rfl

theorem compactFields_eq {level : Nat} {f : String × Value} {rest : Fields}
    (h : ∀ g ∈ f :: rest, (compact g.2).toList = oneLine.text (level + 1) g.2) :
    (compactFields (f :: rest)).toList ++ ['\x7d'] =
      quoteChars f.1.toList ++
        ':' :: (oneLine.text (level + 1) f.2 ++ oneLine.moreFields level rest) := by
  induction rest generalizing f with
  | nil =>
    simp only [compactFields, String.toList_append, List.append_assoc,
      h f List.mem_cons_self, toList_quote]
    rfl
  | cons g rest ih =>
    have hrest := ih fun u hu => h u (List.mem_cons_of_mem _ hu)
    simp only [compactFields, String.toList_append, List.append_assoc, hrest,
      h f List.mem_cons_self, toList_quote]
    rfl

/-- The text of a value on one line. -/
theorem toList_compact (v : Value) (level : Nat) :
    (compact v).toList = oneLine.text level v := by
  induction v using Value.induct generalizing level with
  | null | int | float => rfl
  | bool b => cases b <;> rfl
  | str s => exact toList_quote s
  | list items ih =>
    cases items with
    | nil => rfl
    | cons v rest =>
      have hitems := compactItems_eq fun w hw => ih w hw (level + 1)
      simp only [compact, String.toList_append, List.append_assoc]
      exact congrArg (List.cons '[') hitems
  | map fields ih =>
    cases fields with
    | nil => rfl
    | cons f rest =>
      have hfields := compactFields_eq fun g hg => ih g hg (level + 1)
      simp only [compact, String.toList_append, List.append_assoc]
      exact congrArg (List.cons '\x7b') hfields

theorem toList_indent (level : Nat) : '\n' :: (indent level).toList = indented.gap level :=
  congrArg (List.cons '\n') String.toList_ofList

theorem prettyItems_eq {level : Nat} {v : Value} {rest : List Value}
    (h : ∀ w ∈ v :: rest, (prettyAt (level + 1) w).toList = indented.text (level + 1) w) :
    '\n' :: ((prettyItems level (v :: rest)).toList ++ '\n' :: ((indent level).toList ++ [']'])) =
      indented.gap (level + 1) ++
        (indented.text (level + 1) v ++ indented.moreItems level rest) := by
  induction rest generalizing v with
  | nil =>
    rw [← toList_indent, prettyItems, String.toList_append, h v List.mem_cons_self,
      List.append_assoc, moreItems, ← toList_indent]
    rfl
  | cons w rest ih =>
    have hrest := ih fun u hu => h u (List.mem_cons_of_mem _ hu)
    rw [moreItems, ← hrest, ← toList_indent, prettyItems]
    · simp only [String.toList_append, List.append_assoc, h v List.mem_cons_self]
      rfl
    · exact nofun

theorem prettyFields_eq {level : Nat} {f : String × Value} {rest : Fields}
    (h : ∀ g ∈ f :: rest, (prettyAt (level + 1) g.2).toList = indented.text (level + 1) g.2) :
    '\n' :: ((prettyFields level (f :: rest)).toList ++
        '\n' :: ((indent level).toList ++ ['\x7d'])) =
      indented.gap (level + 1) ++ (quoteChars f.1.toList ++ ':' :: (indented.beforeValue ++
        (indented.text (level + 1) f.2 ++ indented.moreFields level rest))) := by
  induction rest generalizing f with
  | nil =>
    rw [← toList_indent, prettyFields]
    simp only [String.toList_append, List.append_assoc, h f List.mem_cons_self, toList_quote]
    rw [moreFields, ← toList_indent]
    rfl
  | cons g rest ih =>
    have hrest := ih fun u hu => h u (List.mem_cons_of_mem _ hu)
    rw [moreFields, ← hrest, ← toList_indent, prettyFields]
    · simp only [String.toList_append, List.append_assoc, h f List.mem_cons_self, toList_quote]
      rfl
    · exact nofun

/-- The text of a value on several lines. -/
theorem toList_prettyAt (v : Value) (level : Nat) :
    (prettyAt level v).toList = indented.text level v := by
  induction v using Value.induct generalizing level with
  | null => rw [prettyAt, text]; rfl
  | bool b => cases b <;> (rw [prettyAt, text]; rfl)
  | int n => rw [prettyAt, text]
  | float x => rw [prettyAt, text]
  | str s => rw [prettyAt, text, toList_quote]
  | list items ih =>
    cases items with
    | nil => rw [prettyAt, text]; rfl
    | cons v rest =>
      have hitems := prettyItems_eq fun w hw => ih w hw (level + 1)
      rw [prettyAt, text, ← hitems]
      · simp only [String.toList_append, List.append_assoc]
        rfl
      · exact nofun
  | map fields ih =>
    cases fields with
    | nil => rw [prettyAt, text]; rfl
    | cons f rest =>
      have hfields := prettyFields_eq fun g hg => ih g hg (level + 1)
      rw [prettyAt, text, ← hfields]
      · simp only [String.toList_append, List.append_assoc]
        rfl
      · exact nofun

/-! ### One line -/

theorem moreItems_no_feed {level : Nat} {items : List Value}
    (h : ∀ w ∈ items, '\n' ∉ oneLine.text (level + 1) w) :
    '\n' ∉ oneLine.moreItems level items := by
  induction items with
  | nil => simp [moreItems, oneLine]
  | cons v items ih =>
    obtain ⟨hv, hitems⟩ := List.forall_mem_cons.mp h
    simpa [moreItems, oneLine] using ⟨hv, ih hitems⟩

theorem moreFields_no_feed {level : Nat} {fields : Fields}
    (h : ∀ f ∈ fields, '\n' ∉ oneLine.text (level + 1) f.2) :
    '\n' ∉ oneLine.moreFields level fields := by
  induction fields with
  | nil => simp [moreFields, oneLine]
  | cons f fields ih =>
    obtain ⟨hf, hfields⟩ := List.forall_mem_cons.mp h
    simpa [moreFields, oneLine, quoteChars_no_feed] using ⟨hf, ih hfields⟩

theorem oneLine_no_feed (v : Value) (level : Nat) : '\n' ∉ oneLine.text level v := by
  induction v using Value.induct generalizing level with
  | null => simp [text]
  | bool b => cases b <;> simp [text]
  | int n => exact int_no_feed n
  | float x => exact number_no_feed x
  | str s => exact quoteChars_no_feed s.toList
  | list items ih =>
    cases items with
    | nil => simp [text]
    | cons v items =>
      obtain ⟨hv, hitems⟩ := List.forall_mem_cons.mp ih
      have hmore := moreItems_no_feed fun w hw => hitems w hw (level + 1)
      simpa [text, oneLine] using ⟨hv (level + 1), hmore⟩
  | map fields ih =>
    cases fields with
    | nil => simp [text]
    | cons f fields =>
      obtain ⟨hf, hfields⟩ := List.forall_mem_cons.mp ih
      have hmore := moreFields_no_feed fun g hg => hfields g hg (level + 1)
      simpa [text, oneLine, quoteChars_no_feed] using ⟨hf (level + 1), hmore⟩

/-- A text without blanks is one line, whatever the texts in it contain. -/
theorem compact_no_feed (v : Value) : '\n' ∉ (compact v).toList :=
  toList_compact v 0 ▸ oneLine_no_feed v 0

end Layout
end Flowline.Json
