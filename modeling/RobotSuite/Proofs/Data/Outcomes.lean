/-
# Outcomes of readings

What is read step by step is read when each step succeeds.  `Reads` says when a reading succeeds,
what then holds of its result, and what holds of its fault otherwise; readings one after the other
succeed when all may be read (`Reads.bind`).
-/

namespace RobotSuite

section
variable {ε α β : Type} {x : Except ε α}

/-- What is read in two steps is read in the first and then in the second. -/
theorem bind_eq_ok_iff {f : α → Except ε β} {b : β} :
    x >>= f = .ok b ↔ ∃ a, x = .ok a ∧ f a = .ok b := by
  cases x with
  | error e => exact ⟨nofun, nofun⟩
  | ok a => exact ⟨fun h => ⟨a, rfl, h⟩, fun ⟨_, h, hf⟩ => Except.ok.inj h ▸ hf⟩

/-- What is read in two steps is read in the first. -/
theorem bind_eq_ok {f : α → Except ε β} {b : β} (h : x >>= f = .ok b) :
    ∃ a, x = .ok a ∧ f a = .ok b := bind_eq_ok_iff.1 h

/-- What is made of a reading is made of its result. -/
theorem map_eq_ok_iff {f : α → β} {b : β} : f <$> x = .ok b ↔ ∃ a, x = .ok a ∧ f a = b := by
  cases x with
  | error e => exact ⟨nofun, nofun⟩
  | ok a => exact ⟨fun h => ⟨a, rfl, Except.ok.inj h⟩, fun ⟨_, h, hf⟩ => by
      rw [← hf, ← Except.ok.inj h]; rfl⟩

/-- A reading with a result succeeds. -/
theorem eq_ok_of_toOption {a : α} (h : x.toOption = some a) : x = .ok a := by
  cases x with
  | error e => cases h
  | ok b => exact congrArg _ (Option.some.inj h)

/-- A reading that succeeds for what is acceptable and for nothing else, and what holds of its
result or its fault. -/
structure Reads (accepts : Prop) (follows : α → Prop) (faulty : ε → Prop) (x : Except ε α) :
    Prop where
  ok : ∀ a, x = .ok a → accepts ∧ follows a
  error : ∀ e, x = .error e → ¬ accepts ∧ faulty e

namespace Reads

variable {accepts accepts' : Prop} {follows : α → Prop} {follows' : β → Prop} {faulty : ε → Prop}

/-- A reading that succeeds, where it may. -/
theorem of_ok {a : α} (h : accepts) (hfollows : follows a) :
    Reads accepts follows faulty (.ok a) :=
  ⟨fun _ heq => Except.ok.inj heq ▸ ⟨h, hfollows⟩, nofun⟩

/-- A reading that fails, where it must. -/
theorem of_error {e : ε} (h : ¬ accepts) (hfaulty : faulty e) :
    Reads accepts follows faulty (.error e) :=
  ⟨nofun, fun _ heq => Except.error.inj heq ▸ ⟨h, hfaulty⟩⟩

/-- Two readings one after the other are read if both may be. -/
theorem bind {f : α → Except ε β} (hx : Reads accepts follows faulty x)
    (hf : ∀ a, follows a → Reads accepts' follows' faulty (f a)) :
    Reads (accepts ∧ accepts') follows' faulty (x >>= f) := by
  cases x with
  | error e =>
    obtain ⟨hnot, hfaulty⟩ := hx.error e rfl
    exact of_error (fun h => hnot h.1) hfaulty
  | ok a =>
    obtain ⟨h, hfollows⟩ := hx.ok a rfl
    refine ⟨fun b hb => ?_, fun e he => ?_⟩
    · obtain ⟨h', hfollows'⟩ := (hf a hfollows).ok b hb
      exact ⟨⟨h, h'⟩, hfollows'⟩
    · obtain ⟨hnot, hfaulty⟩ := (hf a hfollows).error e he
      exact ⟨fun h => hnot h.2, hfaulty⟩

/-- A reading says less of its result or of its fault. -/
theorem imp {weaker : α → Prop} {faulty' : ε → Prop} (hx : Reads accepts follows faulty x)
    (hiff : accepts ↔ accepts') (hok : accepts → ∀ a, follows a → weaker a)
    (herror : ∀ e, faulty e → faulty' e) : Reads accepts' weaker faulty' x where
  ok a ha := ⟨hiff.1 (hx.ok a ha).1, hok (hx.ok a ha).1 a (hx.ok a ha).2⟩
  error e he := ⟨mt hiff.2 (hx.error e he).1, herror e (hx.error e he).2⟩

/-- What may be read is read. -/
theorem exists_ok (hx : Reads accepts follows faulty x) (h : accepts) :
    ∃ a, x = .ok a ∧ follows a := by
  cases x with
  | error e => exact absurd h (hx.error e rfl).1
  | ok a => exact ⟨a, rfl, (hx.ok a rfl).2⟩

/-- What may not be read gives a fault. -/
theorem exists_error (hx : Reads accepts follows faulty x) (h : ¬ accepts) :
    ∃ e, x = .error e ∧ faulty e := by
  cases x with
  | error e => exact ⟨e, rfl, (hx.error e rfl).2⟩
  | ok a => exact absurd (hx.ok a rfl).1 h

end Reads

end

end RobotSuite
