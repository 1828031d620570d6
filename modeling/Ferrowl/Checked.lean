import Mathlib.Data.List.Basic
/-!
# Checked — computations that stop at an index out of range

A computation that may stop is an `Option`.  `Returns x Q` says that it does not, and that what it returns satisfies `Q`.
-/
namespace Ferrowl

open List

section
variable {α β : Type}

/-- The computation returns, with a result that satisfies `Q`. -/
def Returns (x : Option α) (Q : α → Prop) : Prop := ∃ a, x = some a ∧ Q a

variable {Q : α → Prop}

theorem Returns.some {a : α} (h : Q a) : Returns (Option.some a) Q := ⟨a, rfl, h⟩

variable {x : Option α} {P : α → Prop}

theorem Returns.mono (h : Returns x P) (hPQ : ∀ a, P a → Q a) : Returns x Q := by
  obtain ⟨a, rfl, ha⟩ := h
  exact ⟨a, rfl, hPQ a ha⟩

theorem Returns.left (h : Returns x fun a => P a ∧ Q a) : Returns x P :=
  h.mono fun _ => And.left

variable {f : α → Option β}

theorem Returns.bind {Q : β → Prop} (h : Returns x P) (hf : ∀ a, P a → Returns (f a) Q) : Returns (x.bind f) Q := by
  obtain ⟨a, rfl, ha⟩ := h
  exact hf a ha

theorem Returns.map {f : α → β} {Q : β → Prop} (h : Returns x P) (hf : ∀ a, P a → Q (f a)) : Returns (x.map f) Q := by
  obtain ⟨a, rfl, ha⟩ := h
  exact ⟨f a, rfl, hf a ha⟩

variable {l : List α}

theorem Returns.mapM (h : ∀ a ∈ l, Returns (f a) fun _ => True) : Returns (l.mapM f) fun _ => True := by
  induction l with
  | nil => exact .some trivial
  | cons a l ih =>
    rw [mapM_cons]
    refine Returns.bind (h a mem_cons_self) fun b _ => ?_
    exact Returns.bind (ih fun c hc => h c (mem_cons_of_mem a hc)) fun bs _ => .some trivial

theorem mapM_eq_some {g : α → β} (h : ∀ a ∈ l, f a = Option.some (g a)) : l.mapM f = Option.some (l.map g) := by
  induction l with
  | nil => rfl
  | cons a l ih =>
    rw [mapM_cons, h a mem_cons_self, ih fun b hb => h b (mem_cons_of_mem a hb)]
    rfl

theorem foldlM_eq_some {f : β → α → Option β} {g : β → α → β} (h : ∀ b, ∀ a ∈ l, f b a = Option.some (g b a)) (b : β) :
    l.foldlM f b = Option.some (l.foldl g b) := by
  induction l generalizing b with
  | nil => rfl
  | cons a l ih =>
    rw [foldlM_cons, h b a mem_cons_self]
    exact ih (fun b c hc => h b c (mem_cons_of_mem a hc)) (g b a)

theorem exists_of_mapM : ∀ {l : List α} {bs : List β}, l.mapM f = Option.some bs → ∀ a ∈ l, ∃ b, f a = Option.some b
  | [], _, _, a, ha => absurd ha not_mem_nil
  | c :: l, bs, h, a, ha => by
    rw [mapM_cons] at h
    obtain ⟨b, hb, h⟩ := Option.bind_eq_some_iff.1 h
    obtain ⟨bs', hbs, -⟩ := Option.bind_eq_some_iff.1 h
    rcases mem_cons.1 ha with rfl | ha
    · exact ⟨b, hb⟩
    · exact exists_of_mapM hbs a ha

/-- The computation returns, and what it returns, if it does anything, satisfies `Q`. -/
def Handles (x : Option (Option α)) (Q : α → Prop) : Prop := Returns x fun r => ∀ a, r = Option.some a → Q a

theorem Handles.declined : Handles (Option.some none) Q := .some nofun

theorem Returns.handled (h : Returns x Q) : Handles (x.map Option.some) Q :=
  h.map fun _ ha _ hb => Option.some.inj hb ▸ ha

theorem Handles.some {a : α} (h : Q a) : Handles (Option.some (Option.some a)) Q :=
  (Returns.some h).handled

theorem Handles.ite {p : Prop} [Decidable p] {x : Option (Option α)} (h : p → Handles x Q) :
    Handles (if p then x else Option.some none) Q := by
  by_cases hp : p
  · rw [if_pos hp]
    exact h hp
  · rw [if_neg hp]
    exact .declined

theorem Handles.bind {x : Option (Option α)} {f : Option α → Option β} {Q : β → Prop}
    (h : Handles x P) (hsome : ∀ a, P a → Returns (f (Option.some a)) Q) (hnone : Returns (f none) Q) : Returns (x.bind f) Q := by
  refine Returns.bind h fun r hr => ?_
  cases r with
  | none => exact hnone
  | some a => exact hsome a (hr a rfl)

/-- If the computation returns, its result satisfies `Q`. -/
def Ensures (x : Option α) (Q : α → Prop) : Prop := ∀ a, x = Option.some a → Q a

theorem Ensures.some {a : α} (h : Q a) : Ensures (Option.some a) Q := fun _ hb => Option.some.inj hb ▸ h

theorem Ensures.mono (h : Ensures x P) (hPQ : ∀ a, P a → Q a) : Ensures x Q :=
  fun a ha => hPQ a (h a ha)

theorem Ensures.bind {Q : β → Prop} (h : Ensures x P) (hf : ∀ a, P a → Ensures (f a) Q) : Ensures (x.bind f) Q := by
  intro b hb
  obtain ⟨a, ha, hb⟩ := Option.bind_eq_some_iff.1 hb
  exact hf a (h a ha) b hb

theorem Ensures.map {f : α → β} {Q : β → Prop} (h : Ensures x P) (hf : ∀ a, P a → Q (f a)) : Ensures (x.map f) Q := by
  intro b hb
  obtain ⟨a, ha, rfl⟩ := Option.map_eq_some_iff.1 hb
  exact hf a (h a ha)

theorem Ensures.trivial : Ensures x fun _ => True := fun _ _ => True.intro

theorem Returns.ensures (h : Returns x Q) : Ensures x Q := by
  obtain ⟨a, rfl, ha⟩ := h
  exact .some ha

theorem anyM_of_forall {f : α → Option Bool} {g : α → Bool} : ∀ {l : List α}, (∀ a ∈ l, f a = Option.some (g a)) →
    l.anyM f = Option.some (l.any g)
  | [], _ => rfl
  | a :: l, h => by
    rw [anyM_cons, h a mem_cons_self, any_cons]
    cases hg : g a with
    | true => rfl
    | false => exact anyM_of_forall fun b hb => h b (mem_cons_of_mem a hb)

/-! ## Vectors -/

/-- `l[a..b]` -/
def slice? (l : List α) (a b : Nat) : Option (List α) :=
  if a ≤ b ∧ b ≤ l.length then some ((l.take b).drop a) else none

/-- `l[i] = x` -/
def set? (l : List α) (i : Nat) (x : α) : Option (List α) := if i < l.length then some (l.set i x) else none

/-- `l.insert(i, x)` -/
def insert? (l : List α) (i : Nat) (x : α) : Option (List α) :=
  if i ≤ l.length then some (l.take i ++ x :: l.drop i) else none

/-- `l.remove(i)` -/
def remove? (l : List α) (i : Nat) : Option (α × List α) := l[i]?.map fun x => (x, l.eraseIdx i)

/-- `l.splice(a..=b, xs)` -/
def splice? (l : List α) (a b : Nat) (xs : List α) : Option (List α) :=
  if a ≤ b + 1 ∧ b < l.length then some (l.take a ++ xs ++ l.drop (b + 1)) else none

/-- `l[a..b].copy_from_slice(xs)` -/
def copyFromSlice? (l : List α) (a b : Nat) (xs : List α) : Option (List α) :=
  if a ≤ b ∧ b ≤ l.length ∧ xs.length = b - a then some (l.take a ++ xs ++ l.drop b) else none

theorem slice?_eq {a b : Nat} (hab : a ≤ b) (hb : b ≤ l.length) : slice? l a b = some ((l.take b).drop a) :=
  if_pos ⟨hab, hb⟩

theorem slice?_append (xs ys zs : List α) : slice? (xs ++ (ys ++ zs)) xs.length (xs.length + ys.length) = some ys := by
  rw [slice?_eq (Nat.le_add_right _ _) (by simp only [length_append]; omega), ← append_assoc,
    ← length_append, take_left', drop_left'] <;> rfl

theorem copyFromSlice?_append (xs ys zs : List α) {ws : List α} (h : ws.length = ys.length) :
    copyFromSlice? (xs ++ (ys ++ zs)) xs.length (xs.length + ys.length) ws = some (xs ++ (ws ++ zs)) := by
  have hbounds : xs.length ≤ xs.length + ys.length ∧ xs.length + ys.length ≤ (xs ++ (ys ++ zs)).length ∧
      ws.length = xs.length + ys.length - xs.length := by
    simp only [length_append]
    omega
  rw [copyFromSlice?, if_pos hbounds, take_left' rfl, ← append_assoc xs ys, ← length_append, drop_left' rfl, append_assoc]

variable {i : Nat}

theorem set?_eq (h : i < l.length) (x : α) : set? l i x = some (l.set i x) := if_pos h

theorem insert?_eq (h : i ≤ l.length) (x : α) : insert? l i x = some (l.take i ++ x :: l.drop i) :=
  if_pos h

theorem getElem?_insert_self (h : i ≤ l.length) (x : α) : (l.take i ++ x :: l.drop i)[i]? = some x := by
  have hi : (l.take i).length = i := length_take_of_le h
  rw [List.getElem?_append_right (Nat.le_of_eq hi), hi, Nat.sub_self]
  rfl

theorem remove?_eq {x : α} (h : l[i]? = some x) : remove? l i = some (x, l.eraseIdx i) := by
  rw [remove?, h]
  rfl

theorem splice?_eq {a b : Nat} (hab : a ≤ b + 1) (hb : b < l.length) (xs : List α) :
    splice? l a b xs = some (l.take a ++ xs ++ l.drop (b + 1)) :=
  if_pos ⟨hab, hb⟩

end

end Ferrowl
