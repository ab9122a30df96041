import SheetCompiler.Rows

/-!
# Outcomes

The passes over a sheet are chains of steps that may fail. Three ways to speak of such a chain are enough
for everything that is proved about them: what its success says about the steps (`bind_eq_ok`), its result
with the errors forgotten (`toOption_bind`), and a condition on its result beside one on its error (`Ends`),
which a chain inherits from its steps.
-/

namespace SheetCompiler

variable {ε ε' α β σ : Type}

theorem bind_eq_ok {x : Except ε α} {f : α → Except ε β} {b : β} :
    x >>= f = .ok b ↔ ∃ a, x = .ok a ∧ f a = .ok b := by
  cases x with
  | error e => exact ⟨nofun, nofun⟩
  | ok a => exact ⟨fun h => ⟨a, rfl, h⟩, fun ⟨_, ha, h⟩ => by cases ha; exact h⟩

theorem bind_eq_error {x : Except ε α} {f : α → Except ε β} {e : ε} :
    x >>= f = .error e ↔ x = .error e ∨ ∃ a, x = .ok a ∧ f a = .error e := by
  cases x with
  | error e' => exact ⟨fun h => .inl (by cases h; rfl), fun h => h.elim (fun h => by cases h; rfl) nofun⟩
  | ok a => exact ⟨fun h => .inr ⟨a, rfl, h⟩, fun h => h.elim nofun fun ⟨_, ha, h⟩ => by cases ha; exact h⟩

theorem bind_congr_ok {x : Except ε α} {f g : α → Except ε β} (h : ∀ a, x = .ok a → f a = g a) :
    x >>= f = x >>= g := by
  cases x with
  | error e => rfl
  | ok a => exact h a rfl

theorem mapError_eq_ok {x : Except ε α} {f : ε → ε'} {a : α} : x.mapError f = .ok a ↔ x = .ok a := by
  cases x with
  | error e => exact ⟨nofun, nofun⟩
  | ok b => exact ⟨fun h => by cases h; rfl, fun h => by cases h; rfl⟩

theorem toOption_bind (x : Except ε α) (f : α → Except ε β) :
    (x >>= f).toOption = x.toOption.bind fun a => (f a).toOption := by
  cases x <;> rfl

theorem toOption_mapError (x : Except ε α) (f : ε → ε') :
    (x.mapError f).toOption = x.toOption := by
  cases x <;> rfl

theorem toOption_eq_some {x : Except ε α} {a : α} : x.toOption = some a ↔ x = .ok a := by
  cases x <;> simp [Except.toOption]

theorem map_toOption_eq_some {x : Except ε α} {f : α → β} {b : β} :
    x.toOption.map f = some b ↔ ∃ a, x = .ok a ∧ f a = b := by
  cases x <;> simp [Except.toOption]

/-- What is written item by item is written of two lists as of the one and then of the other. -/
theorem writeAll_append (write : α → Except ε (List β)) {writeAll : List α → Except ε (List β)}
    (hnil : writeAll [] = .ok [])
    (hcons : ∀ a as, writeAll (a :: as) = write a >>= fun front => writeAll as >>= fun rest => .ok (front ++ rest))
    {as bs : List α} {out more : List β} (h : writeAll as = .ok out) (hmore : writeAll bs = .ok more) :
    writeAll (as ++ bs) = .ok (out ++ more) := by
  induction as generalizing out with
  | nil =>
      cases hnil.symm.trans h
      exact hmore
  | cons a as ih =>
      rw [hcons] at h
      obtain ⟨front, hfront, h⟩ := bind_eq_ok.1 h
      obtain ⟨rest, hrest, h⟩ := bind_eq_ok.1 h
      cases h
      rw [List.cons_append, hcons, hfront, ih hrest, List.append_assoc]
      rfl

def error? : Except ε α → Option ε
  | .ok _ => none
  | .error e => some e

theorem error?_eq_some {x : Except ε α} {e : ε} : error? x = some e ↔ x = .error e := by
  cases x <;> simp [error?]

/-- A loop that comes to its end comes there with every step that does what its own steps do. -/
theorem iterateM_imp {step step' : σ → Except ε σ} (hstep : ∀ s s', step s = .ok s' → step' s = .ok s') (n : Nat) :
    ∀ {s s' : σ}, iterateM step n s = .ok s' → iterateM step' n s = .ok s' := by
  induction n with
  | zero => exact fun h => h
  | succ n ih =>
      intro s s' h
      obtain ⟨next, hnext, h⟩ := bind_eq_ok.1 h
      rw [iterateM, hstep s next hnext]
      exact ih h

theorem exists_of_iterateM {step : σ → Except ε σ} {n : Nat} (hpos : 0 < n) {s s' : σ}
    (h : iterateM step n s = .ok s') : ∃ next, step s = .ok next := by
  cases n with
  | zero => exact absurd hpos (Nat.lt_irrefl 0)
  | succ n =>
      obtain ⟨next, hnext, -⟩ := bind_eq_ok.1 h
      exact ⟨next, hnext⟩

/-- If each step of a loop goes from one stage to the next exactly where it finds something, the loop
collects what its steps find. -/
theorem toOption_iterateM {step : σ → Except ε σ} {find : Nat → Option α}
    (stage : Nat → List α → σ)
    (hstep : ∀ i found, (step (stage i found)).toOption = (find i).map fun a => stage (i + 1) (found ++ [a]))
    (n : Nat) : ∀ i found, (iterateM step n (stage i found)).toOption
      = ((List.range n).mapM fun k => find (i + k)).map fun as => stage (i + n) (found ++ as) := by
  induction n with
  | zero =>
      intro i found
      change some (stage i found) = some (stage i (found ++ []))
      rw [List.append_nil]
  | succ n ih =>
      intro i found
      rw [iterateM, toOption_bind, hstep, List.range_succ_eq_map, List.mapM_cons, List.mapM_map]
      cases hfind : find i with
      | none => simp
      | some a =>
          have hshift : (fun k => find (i + k)) ∘ Nat.succ = fun k => find (i + 1 + k) :=
            funext fun k => congrArg find (by simp; omega)
          change (iterateM step n (stage (i + 1) (found ++ [a]))).toOption = _
          rw [ih, hshift, show i + 1 + n = i + (n + 1) by omega]
          cases (List.range n).mapM fun k => find (i + 1 + k) with
          | none => rfl
          | some as => simp

/-- Whether an outcome is a result. -/
def Succeeds (x : Except ε α) : Prop := ∃ a, x = .ok a

instance (x : Except ε α) : Decidable (Succeeds x) :=
  match x with
  | .ok a => isTrue ⟨a, rfl⟩
  | .error _ => isFalse nofun

theorem Succeeds.bind {x : Except ε α} {f : α → Except ε β} (h : Succeeds x) (hstep : ∀ a, Succeeds (f a)) :
    Succeeds (x >>= f) := by
  obtain ⟨a, rfl⟩ := h
  exact hstep a

/-- Whether an outcome is a result with the property `good` or an error with the property `bad`. -/
def Ends (good : α → Prop) (bad : ε → Prop) : Except ε α → Prop
  | .ok a => good a
  | .error e => bad e

theorem Succeeds.ends {x : Except ε α} (h : Succeeds x) (bad : ε → Prop) : Ends (fun _ => True) bad x := by
  obtain ⟨a, rfl⟩ := h
  trivial

namespace Ends

variable {good good' : α → Prop} {bad : ε → Prop} {x : Except ε α}

theorem mono (h : Ends good bad x) (himp : ∀ a, good a → good' a) : Ends good' bad x := by
  cases x with
  | error e => exact h
  | ok a => exact himp a h

theorem and {bad' : ε → Prop} (h : Ends good bad x) (h' : Ends good' bad' x) :
    Ends (fun a => good a ∧ good' a) bad x := by
  cases x with
  | error e => exact h
  | ok a => exact ⟨h, h'⟩

theorem bind {good' : β → Prop} {f : α → Except ε β} (h : Ends good bad x)
    (hstep : ∀ a, good a → Ends good' bad (f a)) : Ends good' bad (x >>= f) := by
  cases x with
  | error e => exact h
  | ok a => exact hstep a h

theorem of_ok {a : α} (h : Ends good bad (.ok a)) : good a := h

theorem any (x : Except ε α) : Ends (fun _ => True) (fun _ => True) x := by
  cases x <;> trivial

theorem mono_error {bad' : ε → Prop} (h : Ends good bad x) (himp : ∀ e, bad e → bad' e) : Ends good bad' x := by
  cases x with
  | error e => exact himp e h
  | ok a => exact h

/-- A chain whose second step depends on more of the first than the condition on its result. -/
theorem bind_of_eq {good' : β → Prop} {f : α → Except ε β} (h : Ends good bad x)
    (hstep : ∀ a, x = .ok a → good a → Ends good' bad (f a)) : Ends good' bad (x >>= f) := by
  cases x with
  | error e => exact h
  | ok a => exact hstep a rfl h

theorem mapError {bad' : ε' → Prop} {f : ε → ε'} (hgood : ∀ a, x = .ok a → good a)
    (hbad : ∀ e, bad' (f e)) : Ends good bad' (x.mapError f) := by
  cases x with
  | error e => exact hbad e
  | ok a => exact hgood a rfl

/-- A step that leads from each stage of an invariant to the next leads to the stage `n` when it is taken `n` times. -/
theorem iterateM (stage : Nat → σ → Prop) {step : σ → Except ε σ} {n : Nat}
    (hstep : ∀ i s, i < n → stage i s → Ends (stage (i + 1)) bad (step s)) {s : σ} (h : stage 0 s) :
    Ends (stage n) bad (iterateM step n s) := by
  -- Behind the first step, the stages that are left begin with the next one.
  induction n generalizing stage s with
  | zero => exact h
  | succ n ih =>
      refine (hstep 0 s (Nat.succ_pos n) h).bind fun s' h' => ?_
      exact ih (fun i => stage (i + 1)) (fun i s hi => hstep (i + 1) s (Nat.succ_lt_succ hi)) h'

/-- A step that does what another one does at each stage of its invariant does the same when it is taken `n` times. -/
theorem iterateM_congr (stage : Nat → σ → Prop) {step step' : σ → Except ε σ} {n : Nat}
    (hstep : ∀ i s, i < n → stage i s → Ends (stage (i + 1)) bad (step s))
    (hsame : ∀ i s, i < n → stage i s → step' s = step s) {s : σ} (h : stage 0 s) :
    SheetCompiler.iterateM step' n s = SheetCompiler.iterateM step n s := by
  induction n generalizing stage s with
  | zero => rfl
  | succ n ih =>
      have hends := hstep 0 s (Nat.succ_pos n) h
      rw [SheetCompiler.iterateM, SheetCompiler.iterateM, hsame 0 s (Nat.succ_pos n) h]
      refine bind_congr_ok fun s' hs' => ?_
      rw [hs'] at hends
      exact ih (fun i => stage (i + 1)) (fun i s hi => hstep (i + 1) s (Nat.succ_lt_succ hi))
        (fun i s hi => hsame (i + 1) s (Nat.succ_lt_succ hi)) hends.of_ok

end Ends

end SheetCompiler
