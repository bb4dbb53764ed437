import Flowline.Guard.Basic

/-!
# The guard under two policies

A policy acts on the modules that a source loads and on nothing else. So whatever one policy lets
through, every wider one does, and what the widest refuses evaluates code at run time.
-/
namespace Flowline

namespace Policy

/-- Whatever `p` lets code do, `q` does too. An empty list of modules is no restriction. -/
structure Within (p q : Policy) : Prop where
  capabilities : ∀ c, p.allows c = true → q.allows c = true
  modules : q.allowedModules = [] ∨
    p.allowedModules ≠ [] ∧ ∀ name ∈ p.allowedModules, name ∈ q.allowedModules

/-- Nothing that a policy could deny is denied. -/
structure IsWidest (p : Policy) : Prop where
  capabilities : ∀ c, p.allows c = true
  modules : p.allowedModules = []

theorem IsWidest.within {q : Policy} (h : q.IsWidest) (p : Policy) : p.Within q where
  capabilities c _ := h.capabilities c
  modules := Or.inl h.modules

/-- The list of modules, if there is one, has this one. -/
def Lists (p : Policy) (name : String) : Prop :=
  p.allowedModules = [] ∨ name ∈ p.allowedModules

theorem Within.lists {p q : Policy} (h : p.Within q) {name : String} (hname : p.Lists name) :
    q.Lists name := by
  obtain hq | ⟨hp, hsub⟩ := h.modules
  · exact Or.inl hq
  · obtain hempty | hmem := hname
    · exact absurd hempty hp
    · exact Or.inr (hsub name hmem)

end Policy

namespace Guard

variable {language : Language} {p q : Policy}

/-! ### One module -/

/-- What a policy asks of a module. -/
structure Admits (p : Policy) (language : Language) (r : ModuleRef) : Prop where
  notEvaluating : r.name ∉ evaluating language
  capability : ∀ c, capability? language r.name = some c → p.allows c = true
  listed : p.Lists r.name

theorem Admits.mono (h : p.Within q) {r : ModuleRef} (hr : Admits p language r) :
    Admits q language r where
  notEvaluating := hr.notEvaluating
  capability c hc := h.capabilities c (hr.capability c hc)
  listed := h.lists hr.listed

theorem moduleRefusal?_eq_none_iff {r : ModuleRef} :
    moduleRefusal? p language r = none ↔ Admits p language r := by
  have hlisted : (p.allowedModules.isEmpty || p.allowedModules.contains r.name) = true ↔
      p.Lists r.name := by
    simp [Policy.Lists]
  unfold moduleRefusal?
  by_cases hevaluating : r.name ∈ evaluating language
  · simp only [List.contains_iff_mem.mpr hevaluating, if_true, reduceCtorEq, false_iff]
    exact fun h => h.notEvaluating hevaluating
  rw [if_neg (by simpa using hevaluating)]
  cases hc : capability? language r.name with
  | none =>
    simp only [Option.filter_none, ite_eq_left_iff, reduceCtorEq, imp_false, Classical.not_not]
    rw [hlisted]
    exact ⟨fun h => ⟨hevaluating, by simp [hc], h⟩, fun h => h.listed⟩
  | some c =>
    cases hallowed : p.allows c with
    | false =>
      simp only [Option.filter_some, hallowed, Bool.not_false, if_true, reduceCtorEq, false_iff]
      intro h
      have := h.capability c hc
      rw [hallowed] at this
      cases this
    | true =>
      simp only [Option.filter_some, hallowed, Bool.not_true, Bool.false_eq_true, if_false,
        ite_eq_left_iff, reduceCtorEq, imp_false, Classical.not_not]
      rw [hlisted]
      refine ⟨fun h => ⟨hevaluating, fun d hd => ?_, h⟩, fun h => h.listed⟩
      obtain rfl : c = d := Option.some.inj (hc.symm.trans hd)
      exact hallowed

/-- The widest policy refuses a module only for what the module is. -/
theorem moduleRefusal?_of_isWidest (h : p.IsWidest) {r : ModuleRef} {refusal : Refusal}
    (hr : moduleRefusal? p language r = some refusal) : refusal = .evaluatingModule r := by
  by_cases hevaluating : r.name ∈ evaluating language
  · unfold moduleRefusal? at hr
    rw [if_pos (List.contains_iff_mem.mpr hevaluating)] at hr
    exact (Option.some.inj hr).symm
  · have hadmits : Admits p language r :=
      ⟨hevaluating, fun c _ => h.capabilities c, Or.inl h.modules⟩
    rw [moduleRefusal?_eq_none_iff.mpr hadmits] at hr
    cases hr

/-! ### A source -/

/-- The modules that a source shows, its comments left out. -/
def sourceModules (language : Language) (source : String) : List ModuleRef :=
  moduleRefs language (withoutComments language source.toList)

theorem refusal?_eq_none_iff {source : String} :
    refusal? p language source = none ↔
      dynamicCode? language (withoutComments language source.toList) = none ∧
        ∀ r ∈ sourceModules language source, Admits p language r := by
  unfold refusal?
  dsimp only
  cases dynamicCode? language (withoutComments language source.toList) with
  | some found => simp
  | none => simp [sourceModules, List.findSome?_eq_none_iff, moduleRefusal?_eq_none_iff]

theorem refusal?_mono (h : p.Within q) {source : String}
    (hp : refusal? p language source = none) : refusal? q language source = none := by
  obtain ⟨hdynamic, hmodules⟩ := refusal?_eq_none_iff.mp hp
  exact refusal?_eq_none_iff.mpr ⟨hdynamic, fun r hr => (hmodules r hr).mono h⟩

theorem refusal?_of_isWidest (h : p.IsWidest) {source : String} {refusal : Refusal}
    (hr : refusal? p language source = some refusal) : refusal.kind = .dynamicCode := by
  unfold refusal? at hr
  dsimp only at hr
  split at hr
  · cases hr
    rfl
  · obtain ⟨r, -, hrefused⟩ := List.exists_of_findSome?_eq_some hr
    rw [moduleRefusal?_of_isWidest h hrefused]
    rfl

/-- A wider policy lets through at least what a narrower one does. What the widest policy refuses is
refused as dynamic code, and every other policy refuses it too. -/
theorem refusal?_monotone :
    (∀ p q : Policy, p.Within q → ∀ language source,
      refusal? p language source = none → refusal? q language source = none) ∧
    (∀ p : Policy, p.IsWidest → ∀ language source refusal,
      refusal? p language source = some refusal →
        refusal.violation.kind = .dynamicCode ∧
          ∀ q, (refusal? q language source).isSome = true) := by
  refine ⟨fun p q h language source hp => refusal?_mono h hp,
    fun p h language source refusal hr => ⟨refusal?_of_isWidest h hr, fun q => ?_⟩⟩
  rw [Option.isSome_iff_ne_none]
  intro hq
  have hp := refusal?_mono (h.within q) hq
  rw [hr] at hp
  cases hp

def jsonOnly : Policy := { allowedModules := ["json"] }
def jsonAndFiles : Policy := { fileSystem := true, allowedModules := ["os", "json"] }
def unrestricted : Policy :=
  { fileSystem := true, network := true, process := true, subprocess := true }

theorem jsonOnly_within : jsonOnly.Within jsonAndFiles where
  capabilities c h := by cases c <;> cases h
  modules := Or.inr ⟨by decide, by decide⟩

theorem unrestricted_isWidest : unrestricted.IsWidest where
  capabilities c := by cases c <;> rfl
  modules := rfl

theorem jsonOnly_monotone :
    (jsonOnly.Within jsonAndFiles ∧ refusal? jsonOnly .python "import json # os\n" = none ∧
      refusal? jsonAndFiles .python "import json # os\n" = none) ∧
    (unrestricted.IsWidest ∧
      refusal? unrestricted .python "import os\nimport runpy\n" =
        some (.evaluatingModule ⟨"runpy", 2⟩) ∧
      (Refusal.evaluatingModule ⟨"runpy", 2⟩).violation.kind = .dynamicCode ∧
      ∀ q, (refusal? q .python "import os\nimport runpy\n").isSome = true) := by
  have hjson : refusal? jsonOnly .python "import json # os\n" = none := by decide +kernel
  have hrunpy : refusal? unrestricted .python "import os\nimport runpy\n" =
      some (.evaluatingModule ⟨"runpy", 2⟩) := by decide +kernel
  exact ⟨⟨jsonOnly_within, hjson, refusal?_monotone.1 _ _ jsonOnly_within _ _ hjson⟩,
    unrestricted_isWidest, hrunpy, refusal?_monotone.2 _ unrestricted_isWidest _ _ _ hrunpy⟩

end Guard
end Flowline
