import Flowline.Market.Fault

/-!
# How reckonings and scripts end

A reckoning ends well if it gives something with a property, or fails in a permitted way. A script
does so whatever it has printed before; what it prints changes nothing.
-/
namespace Flowline.Market

/-- The reckoning gives something with a property, or fails in a permitted way. -/
def Ends (permitted : Fault → Prop) (p : α → Prop) : Except Fault α → Prop
  | .ok a => p a
  | .error f => permitted f

namespace Ends

variable {permitted : Fault → Prop} {p : α → Prop} {q : β → Prop}

theorem bind {x : Except Fault α} {f : α → Except Fault β} (hx : Ends permitted p x)
    (hf : ∀ a, p a → Ends permitted q (f a)) : Ends permitted q (x >>= f) := by
  cases x with
  | ok a => exact hf a hx
  | error fault => exact hx

theorem map {x : Except Fault α} {f : α → β} (hx : Ends permitted p x) (hf : ∀ a, p a → q (f a)) :
    Ends permitted q (f <$> x) := by
  cases x with
  | ok a => exact hf a hx
  | error fault => exact hx

theorem mono {p' : α → Prop} {x : Except Fault α} (hx : Ends permitted p x)
    (hp : ∀ a, p a → p' a) : Ends permitted p' x := by
  cases x with
  | ok a => exact hp a hx
  | error fault => exact hx

theorem cases {x : Except Fault α} (hx : Ends permitted p x) :
    (∃ a, x = .ok a ∧ p a) ∨ ∃ f, x = .error f ∧ permitted f := by
  cases x with
  | ok a => exact .inl ⟨a, rfl, hx⟩
  | error fault => exact .inr ⟨fault, rfl, hx⟩

theorem mapM {xs : List α} {f : α → Except Fault β} (hf : ∀ a ∈ xs, Ends permitted q (f a)) :
    Ends permitted (fun ys => ys.length = xs.length ∧ ∀ y ∈ ys, q y) (xs.mapM f) := by
  induction xs with
  | nil => simp [Ends, Pure.pure, Except.pure]
  | cons a rest ih =>
    rw [List.mapM_cons]
    refine (hf a List.mem_cons_self).bind fun b hb => ?_
    refine (ih fun c hc => hf c (List.mem_cons_of_mem _ hc)).bind fun bs hbs => ?_
    refine ⟨by simp [hbs.1], fun y hy => ?_⟩
    rcases List.mem_cons.mp hy with rfl | hy
    · exact hb
    · exact hbs.2 y hy

theorem foldlM {p : β → Prop} {f : β → α → Except Fault β}
    {xs : List α} {b : β} (hb : p b) (hf : ∀ b a, p b → a ∈ xs → Ends permitted p (f b a)) :
    Ends permitted p (xs.foldlM f b) := by
  induction xs generalizing b with
  | nil => exact hb
  | cons x rest ih =>
    rw [List.foldlM_cons]
    exact (hf b x hb List.mem_cons_self).bind fun c hc =>
      ih hc fun c a hc ha => hf c a hc (List.mem_cons_of_mem _ ha)

end Ends

namespace Script

@[simp] theorem lift_ok_bind (a : α) (f : α → Script β) :
    (liftM (Except.ok a : Except Fault α) : Script α) >>= f = f a := rfl

/-- What a script gives after some lines are printed. -/
def after (printed : List String) (s : Script α) : Except Fault α := ((ExceptT.run s).run printed).1

@[simp] theorem after_pure (printed : List String) (a : α) :
    after printed (pure a : Script α) = .ok a := rfl

@[simp] theorem after_lift_bind (printed : List String) (x : Except Fault α) (f : α → Script β) :
    after printed ((liftM x : Script α) >>= f) = x >>= fun a => after printed (f a) := by
  cases x <;> rfl

@[simp] theorem after_print_bind (printed : List String) (line : String) (f : Unit → Script β) :
    after printed (print line >>= f) = after (printed ++ [line]) (f ()) := rfl

/-- A script that goes on gives something only if both of its parts do. -/
theorem exists_of_after_bind {printed : List String} {s : Script α} {f : α → Script β} {b : β}
    (h : after printed (s >>= f) = .ok b) :
    ∃ a printed', after printed s = .ok a ∧ after printed' (f a) = .ok b := by
  change ((ExceptT.bindCont f ((ExceptT.run s).run printed).1).run
    ((ExceptT.run s).run printed).2).1 = _ at h
  unfold after
  generalize (ExceptT.run s).run printed = r at h
  obtain ⟨x, printed'⟩ := r
  cases x with
  | ok a => exact ⟨a, printed', rfl, h⟩
  | error fault => cases h

theorem outcome_bind {s : Script α} {a : α} (h : s.outcome.1 = .ok a) (f : α → Script β) :
    (s >>= f).outcome.1 = after s.outcome.2 (f a) := by
  unfold outcome at h ⊢
  change ((ExceptT.bindCont f ((ExceptT.run s).run []).1).run ((ExceptT.run s).run []).2).1 = _
  rw [h]
  rfl

/-- The script gives something with a property, or fails in a permitted way. -/
def Ends (permitted : Fault → Prop) (p : α → Prop) (s : Script α) : Prop :=
  ∀ printed, Market.Ends permitted p ((ExceptT.run s).run printed).1

namespace Ends

variable {permitted : Fault → Prop} {p : α → Prop} {q : β → Prop}

theorem outcome {s : Script α} (h : Ends permitted p s) :
    Market.Ends permitted p s.outcome.1 := h []

theorem pure {a : α} (h : p a) : Ends permitted p (Pure.pure a : Script α) := fun _ => h

theorem bind {s : Script α} {f : α → Script β} (hs : Ends permitted p s)
    (hf : ∀ a, p a → Ends permitted q (f a)) : Ends permitted q (s >>= f) := by
  intro printed
  have h := hs printed
  change Market.Ends permitted q ((ExceptT.bindCont f ((ExceptT.run s).run printed).1).run
    ((ExceptT.run s).run printed).2).1
  generalize (ExceptT.run s).run printed = r at h
  obtain ⟨x, after⟩ := r
  cases x with
  | ok a => exact hf a h after
  | error fault => exact h

theorem mono {p' : α → Prop} {s : Script α} (h : Ends permitted p s) (hp : ∀ a, p a → p' a) :
    Ends permitted p' s := fun printed => (h printed).mono hp

theorem lift {x : Except Fault α} (h : Market.Ends permitted p x) :
    Ends permitted p (liftM x : Script α) := fun _ => h

theorem print (line : String) : Ends permitted (fun _ => True) (Script.print line) :=
  fun _ => trivial

end Ends
end Script
end Flowline.Market
