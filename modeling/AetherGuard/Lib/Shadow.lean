import AetherGuard.Lib.Machine
import AetherGuard.Lib.Threads

/-!
# Registers behind a shadow copy

A device's registers are set in two steps: a program changes a shadow copy of them, register by
register, and calls an update that names the registers the device is to take over. What the device
then does is its own affair; `told` is what it was last told of each register. Several threads do so
at once, on one shadow copy, so an update of one may hand over what another has changed. Still,
where every change is followed by an update of its register in the same program (`Closed`), a
register of the shadow copy that is not as the device was told has an update to come (`Inv`), and
once the threads are done the device was told the shadow copy. A program that runs alone on a shadow
copy that was handed over tells the device its changes, one after the other (`result`).
-/

namespace AetherGuard

namespace Shadow

variable {G : Type*} [DecidableEq G] {V : G → Type*}

inductive Op (V : G → Type*)
  | modify (g : G) (f : V g → V g)
  | update (gs : List G)

structure Regs (V : G → Type*) where
  shadow : ∀ g, V g
  /-- Each register as it was at the last update that named it. -/
  told : ∀ g, V g

def Op.exec (r : Regs V) : Op V → Regs V
  | .modify g f => { r with shadow := Function.update r.shadow g (f (r.shadow g)) }
  | .update gs => { r with told := fun g => if g ∈ gs then r.shadow g else r.told g }

/-- The registers, and what each thread has still to do. -/
structure State (V : G → Type*) where
  regs : Regs V
  threads : List (List (Op V))

namespace State

variable {s : State V}

/-- The next operation of the `i`-th thread. -/
def step (s : State V) (i : ℕ) : State V :=
  match s.threads[i]? with
  | some (o :: rest) => ⟨o.exec s.regs, s.threads.set i rest⟩
  | _ => s

/-- Every thread has come to its end. -/
def Done (s : State V) : Prop := ∀ p ∈ s.threads, p = []

end State

/-- The operation hands the register over. -/
def Op.Writes (g : G) : Op V → Prop
  | .modify _ _ => False
  | .update gs => g ∈ gs

/-- Every change is handed over later. -/
def Closed : List (Op V) → Prop
  | [] => True
  | .modify g _ :: rest => (∃ o ∈ rest, o.Writes g) ∧ Closed rest
  | .update _ :: rest => Closed rest

omit [DecidableEq G] in
theorem Closed.tail {o : Op V} {p : List (Op V)} (h : Closed (o :: p)) : Closed p := by
  cases o with
  | modify g f => exact h.2
  | update gs => exact h

omit [DecidableEq G] in
theorem Closed.append {p q : List (Op V)} (hp : Closed p) (hq : Closed q) : Closed (p ++ q) := by
  induction p with
  | nil => exact hq
  | cons o p ih =>
    cases o with
    | modify g f =>
      obtain ⟨⟨o, ho, hw⟩, hrest⟩ := hp
      exact ⟨⟨o, List.mem_append_left q ho, hw⟩, ih hrest⟩
    | update gs => exact ih hp

omit [DecidableEq G] in
theorem Closed.flatMap {β : Type*} {f : β → List (Op V)} (hf : ∀ x, Closed (f x)) :
    ∀ l : List β, Closed (l.flatMap f)
  | [] => trivial
  | x :: l => by
    rw [List.flatMap_cons]
    exact (hf x).append (Closed.flatMap hf l)

namespace State

variable {s : State V}

/-- Some thread has still to hand the register over. -/
def Pending (s : State V) (g : G) : Prop := ∃ p ∈ s.threads, ∃ o ∈ p, o.Writes g

structure Inv (s : State V) : Prop where
  closed : ∀ p ∈ s.threads, Closed p
  settles : ∀ g, s.regs.told g = s.regs.shadow g ∨ s.Pending g

omit [DecidableEq G] in
theorem Inv.told_eq (h : s.Inv) (hd : s.Done) : s.regs.told = s.regs.shadow := by
  funext g
  rcases h.settles g with heq | ⟨p, hp, o, ho, -⟩
  · exact heq
  · rw [hd p hp] at ho
    simp at ho

omit [DecidableEq G] in
/-- An update that is not the operation taken is still to come. -/
theorem Pending.set {g : G} (h : s.Pending g) {i : ℕ} {o : Op V} {rest : List (Op V)}
    (hi : s.threads[i]? = some (o :: rest)) (ho : ¬ o.Writes g) (r : Regs V) :
    (State.mk r (s.threads.set i rest)).Pending g := by
  obtain ⟨p, hp, o', ho', hw⟩ := h
  by_cases hsame : s.threads[i]? = some p
  · obtain rfl : o :: rest = p := Option.some.inj (hi.symm.trans hsame)
    refine ⟨rest, List.mem_set (List.getElem?_eq_some_iff.1 hi).1 rest, o', ?_, hw⟩
    rcases List.mem_cons.1 ho' with rfl | hmem
    · exact absurd hw ho
    · exact hmem
  · exact ⟨p, Threads.mem_set_of_ne hp hsame, o', ho', hw⟩

theorem step_cases (s : State V) (i : ℕ) : s.step i = s
    ∨ ∃ o rest, s.threads[i]? = some (o :: rest)
      ∧ s.step i = ⟨o.exec s.regs, s.threads.set i rest⟩ := by
  unfold step
  split
  · exact .inr ⟨_, _, ‹_›, rfl⟩
  · exact .inl rfl

theorem step_inv (h : s.Inv) (i : ℕ) : (s.step i).Inv := by
  obtain heq | ⟨o, rest, hi, heq⟩ := s.step_cases i <;> rw [heq]
  · exact h
  have hclosed : Closed (o :: rest) := h.closed _ (List.mem_of_getElem? hi)
  refine ⟨fun p hp => ?_, fun g => ?_⟩
  · rcases List.mem_or_eq_of_mem_set hp with hold | rfl
    · exact h.closed p hold
    · exact hclosed.tail
  · cases o with
    | modify g' f =>
      by_cases hg : g = g'
      · subst hg
        obtain ⟨o, ho, hw⟩ := hclosed.1
        exact .inr ⟨rest, List.mem_set (List.getElem?_eq_some_iff.1 hi).1 rest, o, ho, hw⟩
      · simp only [Op.exec, Function.update_of_ne hg]
        exact (h.settles g).imp id fun hp => hp.set hi (fun hw => hw) _
    | update gs =>
      simp only [Op.exec]
      by_cases hg : g ∈ gs
      · exact .inl (if_pos hg)
      · rw [if_neg hg]
        exact (h.settles g).imp id fun hp => hp.set hi hg _

end State

/-! ## What all changes keep -/

/-- The change of a register keeps `P`. -/
def Op.Keeps (P : ∀ g, V g → Prop) : Op V → Prop
  | .modify g f => ∀ x, P g x → P g (f x)
  | .update _ => True

/-- The registers and all that the threads have to do keep `P`. -/
structure State.Keeps (P : ∀ g, V g → Prop) (s : State V) : Prop where
  shadow : ∀ g, P g (s.regs.shadow g)
  told : ∀ g, P g (s.regs.told g)
  threads : ∀ p ∈ s.threads, ∀ o ∈ p, o.Keeps P

theorem State.step_keeps {P : ∀ g, V g → Prop} {s : State V} (h : s.Keeps P) (i : ℕ) :
    (s.step i).Keeps P := by
  obtain heq | ⟨o, rest, hi, heq⟩ := s.step_cases i <;> rw [heq]
  · exact h
  have hmem := h.threads _ (List.mem_of_getElem? hi)
  have hthreads : ∀ p ∈ s.threads.set i rest, ∀ o ∈ p, o.Keeps P := by
    intro p hp
    rcases List.mem_or_eq_of_mem_set hp with hold | rfl
    · exact h.threads p hold
    · exact fun o ho => hmem o (List.mem_cons_of_mem _ ho)
  cases o with
  | modify g f =>
    refine ⟨fun g' => ?_, h.told, hthreads⟩
    by_cases hg : g' = g
    · subst hg
      simpa [Op.exec] using hmem _ List.mem_cons_self _ (h.shadow g')
    · simpa [Op.exec, Function.update_of_ne hg] using h.shadow g'
  | update gs =>
    refine ⟨h.shadow, fun g => ?_, hthreads⟩
    simp only [Op.exec]
    split_ifs
    · exact h.shadow g
    · exact h.told g

/-! ## A program on its own -/

/-- The changes of a program made on one copy. -/
def result (r : ∀ g, V g) : List (Op V) → ∀ g, V g
  | [] => r
  | .modify g f :: rest => result (Function.update r g (f (r g))) rest
  | .update _ :: rest => result r rest

theorem result_cons (o : Op V) (p : List (Op V)) (r : Regs V) :
    result r.shadow (o :: p) = result (o.exec r).shadow p := by
  cases o <;> rfl

end Shadow

end AetherGuard
