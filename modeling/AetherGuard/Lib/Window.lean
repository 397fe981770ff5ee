import AetherGuard.Lib.Counter

/-!
# Windows of a ring

Items are numbered in the order they pass through a ring of `N` slots, item `k` through slot
`k % N`. A flag of the slots tracks a window of item numbers when it is up in exactly the slots
of the items from `lo` on and before `hi` (`Window`): raising the flag of slot `hi` moves the upper
end, lowering that of slot `lo` the lower end, and a raised flag at slot `hi` means the ring is
full. The slots of a window store its items (`Stores`) until one of them is written.
-/

namespace AetherGuard

variable {β γ : Type*}

/-- The pool with slot `i` rewritten. -/
def modifySlot (pool : ℤ → β) (i : ℤ) (f : β → β) : ℤ → β := Function.update pool i (f (pool i))

@[simp] theorem modifySlot_self (pool : ℤ → β) (i : ℤ) (f : β → β) :
    modifySlot pool i f i = f (pool i) := by
  simp [modifySlot]

theorem modifySlot_ne (pool : ℤ → β) {i j : ℤ} (f : β → β) (h : j ≠ i) :
    modifySlot pool i f j = pool j := by
  simp [modifySlot, h]

theorem modifySlot_modifySlot (pool : ℤ → β) (i : ℤ) (f g : β → β) :
    modifySlot (modifySlot pool i f) i g = modifySlot pool i fun x => g (f x) := by
  simp [modifySlot]

/-- A field the rewriting leaves alone is as before in every slot. -/
theorem modifySlot_field {pool : ℤ → β} {i : ℤ} {f : β → β} (π : β → γ)
    (h : π (f (pool i)) = π (pool i)) :
    (fun j => π (modifySlot pool i f j)) = fun j => π (pool j) := by
  funext j
  rcases eq_or_ne j i with rfl | hj
  · simp [h]
  · simp [modifySlot_ne pool f hj]

/-- A field the rewriting sets is updated in that slot. -/
theorem modifySlot_field_set {pool : ℤ → β} {i : ℤ} {f : β → β} (π : β → γ) {c : γ}
    (h : π (f (pool i)) = c) :
    (fun j => π (modifySlot pool i f j)) = Function.update (fun j => π (pool j)) i c := by
  funext j
  rcases eq_or_ne j i with rfl | hj
  · simp [h]
  · simp [modifySlot_ne pool f hj, hj]

/-- `flag` is up in the slots of the items from `lo` on and before `hi`, and in no other. -/
structure Window (N : ℕ) (flag : ℤ → Bool) (lo hi : ℕ) : Prop where
  lo_le : lo ≤ hi
  hi_le : hi ≤ lo + N
  flag_iff : ∀ i : ℕ, i < N → (flag i = true ↔ ∃ k, lo ≤ k ∧ k < hi ∧ ringSlot N k = i)

namespace Window

variable {N : ℕ} {flag : ℤ → Bool} {lo hi : ℕ}

theorem of_empty (h : ∀ i, flag i = false) (k : ℕ) : Window N flag k k :=
  ⟨le_rfl, by omega, fun i _ => by simp only [h]; grind⟩

theorem flag_slot_iff (W : Window N flag lo hi) (hN : 0 < N) (m : ℕ) :
    flag (ringSlot N m) = true ↔ ∃ k, lo ≤ k ∧ k < hi ∧ ringSlot N k = ringSlot N m :=
  W.flag_iff _ (Nat.mod_lt m hN)

theorem flag_of_mem (W : Window N flag lo hi) (hN : 0 < N) {k : ℕ} (hlo : lo ≤ k) (hhi : k < hi) :
    flag (ringSlot N k) = true :=
  (W.flag_slot_iff hN k).2 ⟨k, hlo, hhi, rfl⟩

/-- The slot of the next item is taken only when a whole ring of items is in the window. -/
theorem flag_hi (W : Window N flag lo hi) (hN : 0 < N) :
    flag (ringSlot N hi) = true ↔ hi = lo + N := by
  rw [W.flag_slot_iff hN]
  have := W.hi_le
  constructor
  · rintro ⟨k, hlo, hhi, hs⟩
    by_contra hne
    have := ringSlot_inj lo hlo (by omega) W.lo_le (by omega) hs
    omega
  · rintro rfl
    exact ⟨lo, le_rfl, by omega, by simp [ringSlot]⟩

theorem flag_hi_false (W : Window N flag lo hi) (hN : 0 < N) :
    flag (ringSlot N hi) = false ↔ hi < lo + N := by
  rw [← Bool.not_eq_true, W.flag_hi hN]
  have := W.hi_le
  omega

/-- Going round the ring from slot `lo`, the flag is up as far as the window goes. -/
theorem flag_add (W : Window N flag lo hi) {j : ℕ} (hj : j < N) :
    flag (ringSlot N (lo + j)) = true ↔ lo + j < hi := by
  rw [W.flag_slot_iff (by omega)]
  have := W.hi_le
  refine ⟨?_, fun h => ⟨lo + j, by omega, h, rfl⟩⟩
  rintro ⟨k, hlo, hhi, hs⟩
  have := ringSlot_inj lo hlo (by omega) (by omega) (by omega) hs
  omega

theorem flag_lo (W : Window N flag lo hi) (hN : 0 < N) :
    flag (ringSlot N lo) = true ↔ lo < hi :=
  W.flag_add hN

theorem filter_slots (W : Window N flag lo hi) :
    ((List.range N).map fun j => ringSlot N (lo + j)).filter flag
      = (List.range (hi - lo)).map fun j => ringSlot N (lo + j) := by
  obtain ⟨m, hm⟩ : ∃ m, N = (hi - lo) + m := ⟨N - (hi - lo), by have := W.hi_le; omega⟩
  have hup : ∀ j ∈ List.range (hi - lo), flag (ringSlot N (lo + j)) = true := by
    intro j hj
    rw [List.mem_range] at hj
    exact (W.flag_add (by omega)).2 (by omega)
  have hdown : ∀ j ∈ List.range m, ¬ flag (ringSlot N (lo + (hi - lo + j))) = true := by
    intro j hj
    rw [List.mem_range] at hj
    rw [W.flag_add (by omega)]
    have := W.lo_le
    omega
  nth_rewrite 2 [hm]
  rw [List.range_add, List.map_append, List.filter_append, List.filter_eq_self.2,
    List.filter_eq_nil_iff.2, List.append_nil]
  · simpa using hdown
  · simpa using hup

theorem flag_of_full (W : Window N flag lo hi) (h : hi = lo + N) {i : ℕ} (hi' : i < N) :
    flag i = true := by
  have hlo : lo % N < N := Nat.mod_lt _ (by omega)
  refine (W.flag_iff i hi').2 ?_
  rcases Nat.lt_or_ge i (lo % N) with hlt | hge
  · refine ⟨lo + (N + i - lo % N), by omega, by omega, ?_⟩
    have : lo + (N + i - lo % N) = N * (lo / N + 1) + i := by
      have := Nat.div_add_mod lo N
      rw [Nat.mul_add]
      omega
    rw [ringSlot, this, Nat.mul_add_mod, Nat.mod_eq_of_lt hi']
  · refine ⟨lo + (i - lo % N), by omega, by omega, ?_⟩
    have : lo + (i - lo % N) = N * (lo / N) + i := by
      have := Nat.div_add_mod lo N
      omega
    rw [ringSlot, this, Nat.mul_add_mod, Nat.mod_eq_of_lt hi']

/-- Rewriting a slot without touching the flag keeps the window. -/
theorem modify {pool : ℤ → β} {π : β → Bool} (W : Window N (fun j => π (pool j)) lo hi) {i : ℤ}
    {f : β → β} (h : π (f (pool i)) = π (pool i)) :
    Window N (fun j => π (modifySlot pool i f j)) lo hi := by
  rw [modifySlot_field π h]
  exact W

theorem raise (W : Window N flag lo hi) (h : hi < lo + N) :
    Window N (Function.update flag (ringSlot N hi) true) lo (hi + 1) := by
  refine ⟨W.lo_le.trans (Nat.le_succ hi), h, fun i hi' => ?_⟩
  rcases eq_or_ne (i : ℤ) (ringSlot N hi) with he | he
  · rw [he, Function.update_self]
    exact ⟨fun _ => ⟨hi, W.lo_le, Nat.lt_succ_self hi, rfl⟩, fun _ => rfl⟩
  · rw [Function.update_of_ne he, W.flag_iff i hi']
    constructor
    · rintro ⟨k, h1, h2, h3⟩
      exact ⟨k, h1, by omega, h3⟩
    · rintro ⟨k, h1, h2, h3⟩
      refine ⟨k, h1, lt_of_le_of_ne (Nat.lt_succ_iff.1 h2) fun hk => ?_, h3⟩
      exact he (by rw [← h3, hk])

theorem lower (W : Window N flag lo hi) (h : lo < hi) :
    Window N (Function.update flag (ringSlot N lo) false) (lo + 1) hi := by
  refine ⟨h, by have := W.hi_le; omega, fun i hi' => ?_⟩
  have hle := W.hi_le
  rcases eq_or_ne (i : ℤ) (ringSlot N lo) with he | he
  · rw [he, Function.update_self]
    refine ⟨fun hf => by simp at hf, ?_⟩
    rintro ⟨k, h1, h2, h3⟩
    have := ringSlot_inj lo (by omega) (by omega) le_rfl (by omega) h3
    omega
  · rw [Function.update_of_ne he, W.flag_iff i hi']
    constructor
    · rintro ⟨k, h1, h2, h3⟩
      refine ⟨k, Nat.succ_le_of_lt (lt_of_le_of_ne h1 fun hk => ?_), h2, h3⟩
      exact he (by rw [← h3, hk])
    · rintro ⟨k, h1, h2, h3⟩
      exact ⟨k, by omega, h2, h3⟩

end Window

/-- The slots of the items from `lo` on and before `hi` hold these items. -/
def Stores (N : ℕ) (content : ℤ → β) (items : List β) (lo hi : ℕ) : Prop :=
  ∀ k, lo ≤ k → k < hi → items[k]? = some (content (ringSlot N k))

namespace Stores

variable {N : ℕ} {content : ℤ → β} {items : List β} {lo hi : ℕ}

theorem of_empty (N : ℕ) (content : ℤ → β) (items : List β) (k : ℕ) :
    Stores N content items k k :=
  fun _ _ _ => by omega

theorem append (S : Stores N content items lo hi) (more : List β) :
    Stores N content (items ++ more) lo hi := by
  intro k h1 h2
  have hk := S k h1 h2
  rw [List.getElem?_append_left (List.getElem?_eq_some_iff.1 hk).1, hk]

theorem raise (S : Stores N content items lo hi) (h : items[hi]? = some (content (ringSlot N hi))) :
    Stores N content items lo (hi + 1) := by
  intro k h1 h2
  rcases Nat.lt_succ_iff_lt_or_eq.1 h2 with h2 | rfl
  · exact S k h1 h2
  · exact h

theorem map_slots (S : Stores N content items lo hi) (h : hi = items.length) :
    ((List.range (hi - lo)).map fun j => ringSlot N (lo + j)).map content = items.drop lo := by
  subst h
  apply List.ext_getElem
  · simp
  · intro j h1 h2
    simp only [List.length_map, List.length_range] at h1
    have hj := S (lo + j) (by omega) (by omega)
    rw [List.getElem?_eq_getElem (by omega), Option.some.injEq] at hj
    simp [hj]

theorem modify {pool : ℤ → γ} {π : γ → β} (S : Stores N (fun j => π (pool j)) items lo hi) {i : ℤ}
    {f : γ → γ} (h : π (f (pool i)) = π (pool i)) :
    Stores N (fun j => π (modifySlot pool i f j)) items lo hi := by
  rw [modifySlot_field π h]
  exact S

theorem lower (S : Stores N content items lo hi) : Stores N content items (lo + 1) hi :=
  fun k h1 h2 => S k (by omega) h2

/-- Writing a slot outside the window leaves its items stored. -/
theorem write (S : Stores N content items lo hi) {content' : ℤ → β} {m : ℕ} (hhi : hi ≤ m)
    (hm : m < lo + N) (h : ∀ j, j ≠ ringSlot N m → content' j = content j) :
    Stores N content' items lo hi := by
  intro k h1 h2
  rw [h _ fun hs => ?_]
  · exact S k h1 h2
  · have := ringSlot_inj lo h1 (by omega) (by omega) hm hs
    omega

end Stores

end AetherGuard
