import PaneGrid.Passing
import PaneGrid.Proofs.Outcome

/-! The monads that passes are run in. Beside the laws of a monad two are needed to say what a pass
does: it goes on with what the store answers, and it goes no further where the store fails it. What
it tells on the way can be heard in `Limited`, where there is also nothing to fall back on: a
recursion that reaches the limit on its depth has no outcome at all. -/

namespace PaneGrid

namespace Passing

class Lawful (m : Type → Type) [Monad m] [Passing m] : Prop extends LawfulMonad m where
  settle_ok {α : Type} (a : α) : (settle (.ok a) : m α) = pure a
  settle_error_bind {α β : Type} (fault : LayoutFault) (next : α → m β) :
    (settle (.error fault) >>= next) = settle (.error fault)

attribute [simp] Lawful.settle_ok Lawful.settle_error_bind

@[simp] theorem settle_except {α : Type} (answer : Except LayoutFault α) :
    (settle answer : Except LayoutFault α) = answer := rfl

@[simp] theorem fail_except {α : Type} (fault : LayoutFault) :
    (fail fault : Except LayoutFault α) = .error fault := rfl

@[simp] theorem exceed_except {α : Type} (id : NodeId) :
    (exceed id : Except LayoutFault α) = .error (.sharedNode id) := rfl

@[simp] theorem tell_except (visit : Visit) : (tell visit : Except LayoutFault Unit) = .ok () := rfl

instance : Lawful (Except LayoutFault) where
  settle_ok _ := rfl
  settle_error_bind _ _ := rfl

section Tellings

variable {m : Type → Type} [Monad m] [Passing m]

/-- Tells of one piece of work after another, and nothing else happens. -/
def tellAll (visits : List Visit) : m Unit := visits.forM tell

@[simp] theorem tellAll_nil : (tellAll [] : m Unit) = pure () := rfl

theorem tellAll_append [LawfulMonad m] (visits visits' : List Visit) :
    (tellAll (visits ++ visits') : m Unit) = (do tellAll visits; tellAll visits') :=
  List.forM_append

theorem tellAll_cons [LawfulMonad m] (visit : Visit) (visits : List Visit) :
    (tellAll (visit :: visits) : m Unit) = (do tell visit; tellAll visits) :=
  List.forM_cons

/-- Where nobody listens, tellings come to nothing. -/
@[simp] theorem tellAll_except_bind {α : Type} (visits : List Visit)
    (next : Unit → Except LayoutFault α) : (tellAll visits >>= next) = next () := by
  induction visits with
  | nil => rfl
  | cons visit visits ih => rw [tellAll_cons, bind_assoc, tell_except, ok_bind, ih]

end Tellings

end Passing

/-- A run under a limit on the depth of its recursions: what it has told, and its outcome, if it
does not go on beyond the limit. -/
structure Limited (α : Type) where
  told : List Visit
  outcome : Option (Except LayoutFault α)

namespace Limited

open Passing

variable {α β : Type}

/-- The run that ends with this outcome at once. -/
def halt (outcome : Except LayoutFault α) : Limited α := ⟨[], some outcome⟩

/-- The run that goes on beyond the limit. -/
def cutOff : Limited α := ⟨[], none⟩

/-- The run that ends well, with its tellings. -/
def ends (told : List Visit) (a : α) : Limited α := ⟨told, some (.ok a)⟩

def bind (x : Limited α) (next : α → Limited β) : Limited β :=
  match x.outcome with
  | some (.ok a) => ⟨x.told ++ (next a).told, (next a).outcome⟩
  | some (.error fault) => ⟨x.told, some (.error fault)⟩
  | none => ⟨x.told, none⟩

instance : Monad Limited where
  pure a := halt (.ok a)
  bind := bind

instance : Passing Limited where
  settle := halt
  exceed _ := cutOff
  tell visit := ends [visit] ()

@[simp] theorem settle_eq_halt (answer : Except LayoutFault α) :
    (settle answer : Limited α) = halt answer := rfl

@[simp] theorem fail_eq_halt (fault : LayoutFault) :
    (fail fault : Limited α) = halt (.error fault) := rfl

@[simp] theorem pure_eq_halt (a : α) : (pure a : Limited α) = halt (.ok a) := rfl

@[simp] theorem halt_ok_bind (a : α) (next : α → Limited β) :
    (halt (.ok a) >>= next) = next a := rfl

@[simp] theorem halt_error_bind (fault : LayoutFault) (next : α → Limited β) :
    (halt (.error fault) >>= next) = halt (.error fault) := rfl

theorem ends_bind (told : List Visit) (a : α) (next : α → Limited β) :
    (ends told a >>= next) = ⟨told ++ (next a).told, (next a).outcome⟩ := rfl

theorem cutOff_ne_halt {outcome : Except LayoutFault α} : cutOff ≠ halt outcome := by
  rintro ⟨⟩

@[simp] theorem halt_inj {x y : Except LayoutFault α} : halt x = halt y ↔ x = y := by
  simp [halt]

theorem bind_eq_halt_ok {x : Limited α} {next : α → Limited β} {b : β} :
    (x >>= next) = halt (.ok b) ↔ ∃ a, x = halt (.ok a) ∧ next a = halt (.ok b) := by
  constructor
  · intro h
    obtain ⟨told, _ | _ | a⟩ := x
    · obtain ⟨⟩ := (mk.inj h).2
    · obtain ⟨⟩ := (mk.inj h).2
    · obtain ⟨htold, houtcome⟩ := mk.inj h
      obtain ⟨rfl, hnext⟩ := List.append_eq_nil_iff.mp htold
      exact ⟨a, rfl, congr (congrArg mk hnext) houtcome⟩
  · rintro ⟨a, rfl, h⟩
    exact h

theorem bind_assoc {γ : Type} (x : Limited α) (f : α → Limited β) (g : β → Limited γ) :
    bind (bind x f) g = bind x fun a => bind (f a) g := by
  obtain ⟨told, _ | _ | a⟩ := x
  · rfl
  · rfl
  · simp only [bind]
    obtain ⟨told', _ | _ | b⟩ := f a
    · rfl
    · rfl
    · simp

instance : Lawful Limited where
  toLawfulMonad := .mk' Limited
    (fun x => by obtain ⟨told, _ | _ | a⟩ := x <;> simp [Functor.map, bind, halt])
    (fun _ _ => rfl)
    bind_assoc
  settle_ok _ := rfl
  settle_error_bind _ _ := rfl

theorem tellAll_eq_ends (visits : List Visit) :
    (tellAll visits : Limited Unit) = ends visits () := by
  induction visits with
  | nil => rfl
  | cons visit visits ih =>
    rw [tellAll_cons, ih]
    rfl

theorem tellAll_bind_pure (visits : List Visit) (a : α) :
    (do tellAll visits; return a : Limited α) = ends visits a := by
  rw [tellAll_eq_ends, ends_bind, pure_eq_halt, halt, List.append_nil, ends]

end Limited

end PaneGrid
