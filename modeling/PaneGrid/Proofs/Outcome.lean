import PaneGrid.Store.Editing

/-! How outcomes pass through a sequence of steps: of checks that succeed or fail, and of edits that
carry a store along. -/

namespace PaneGrid

section Checks

variable {ε α β : Type}

@[simp] theorem ok_bind (a : α) (f : α → Except ε β) : (Except.ok a >>= f) = f a := rfl

@[simp] theorem error_bind (e : ε) (f : α → Except ε β) :
    (Except.error e >>= f) = Except.error e := rfl

@[simp] theorem throw_eq_error (e : ε) : (throw e : Except ε α) = .error e := rfl

@[simp] theorem pure_eq_ok (a : α) : (pure a : Except ε α) = .ok a := rfl

theorem bind_eq_ok {x : Except ε α} {f : α → Except ε β} {b : β} :
    (x >>= f) = .ok b ↔ ∃ a, x = .ok a ∧ f a = .ok b := by
  cases x <;> simp

end Checks

namespace Editing

variable {α β : Type}

theorem run_read_ok {f : Store → Except LayoutFault α} {s : Store} {a : α} (h : f s = .ok a) :
    (read f).run s = .ok a s := by
  rw [read, EStateM.run_bind, EStateM.run_get]
  simp only [h, EStateM.run_pure]

theorem run_read_error {f : Store → Except LayoutFault α} {s : Store} {e : LayoutFault}
    (h : f s = .error e) : (read f).run s = .error e s := by
  rw [read, EStateM.run_bind, EStateM.run_get]
  simp only [h]
  rfl

theorem run_bind_ok {x : Editing α} {s s' : Store} {a : α} (h : x.run s = .ok a s')
    (next : α → Editing β) : (x >>= next).run s = (next a).run s' := by
  rw [EStateM.run_bind, h]

theorem run_bind_error {x : Editing α} {s s' : Store} {e : LayoutFault} (h : x.run s = .error e s')
    (next : α → Editing β) : (x >>= next).run s = .error e s' := by
  rw [EStateM.run_bind, h]

theorem run_read_bind_ok {f : Store → Except LayoutFault α} {s : Store} {a : α} (h : f s = .ok a)
    (next : α → Editing β) : (read f >>= next).run s = (next a).run s :=
  run_bind_ok (run_read_ok h) next

theorem run_read_bind_error {f : Store → Except LayoutFault α} {s : Store} {e : LayoutFault}
    (h : f s = .error e) (next : α → Editing β) : (read f >>= next).run s = .error e s :=
  run_bind_error (run_read_error h) next

@[simp] theorem run_throw_bind (e : LayoutFault) (s : Store) (next : α → Editing β) :
    ((throw e : Editing α) >>= next).run s = .error e s := rfl

@[simp] theorem run_get_bind (s : Store) (next : Store → Editing β) :
    ((get : Editing Store) >>= next).run s = (next s).run s := rfl

end Editing

end PaneGrid
