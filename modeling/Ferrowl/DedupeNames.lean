import Ferrowl.Shell
/-!
# DedupeNames — the loop that keeps tab names apart

`dedupe_names` walks the names of a session in order with the set of names handed out so far.  A name that is already out is
tried with ` (2)`, ` (3)`, … behind it, the number an `i32`.
-/
namespace Ferrowl.Tui

open List

def suffixed (name : String) (n : ℕ) : String :=
  name ++ " (" ++ Nat.repr n ++ ")"

/-- The inner loop of `dedupe_names` from the number `n`; `none` where the next number is no `i32`. -/
def suffixLoop (seen : List String) (name : String) (n : ℕ) : Option String :=
  if suffixed name n ∈ seen then
    if n + 1 < 2 ^ 31 then suffixLoop seen name (n + 1) else none
  else some (suffixed name n)
termination_by 2 ^ 31 - n

/-- The outer loop: the names seen, the names put out and the names to come. -/
def dedupeLoop (seen out : List String) : List String → Option (List String)
  | [] => some out
  | name :: names =>
    if name ∈ seen then
      (suffixLoop seen name 2).bind fun candidate => dedupeLoop (candidate :: seen) (out ++ [candidate]) names
    else dedupeLoop (name :: seen) (out ++ [name]) names

/-! ## The loop ends with the first free number -/

theorem suffixed_injective (name : String) : Function.Injective (suffixed name) := by
  intro m n h
  have hrepr := (String.append_right_inj (name ++ " (")).1 ((String.append_left_inj ")").1 h)
  exact Nat.repr_injective hrepr

theorem length_add_lt_suffixed (name : String) (n : ℕ) : name.length + 2 < (suffixed name n).length := by
  have hopen : " (".length = 2 := rfl
  have hclose : ")".length = 1 := rfl
  simp only [suffixed, String.length_append]
  omega

theorem suffixed_ne (name : String) (n : ℕ) : suffixed name n ≠ name := by
  intro h
  have hlt := length_add_lt_suffixed name n
  rw [h] at hlt
  omega

variable {seen : List String} {name : String}

theorem suffixLoop_eq {n k : ℕ} (hfree : suffixed name k ∉ seen) (hle : n ≤ k) (hk : k < 2 ^ 31)
    (htaken : ∀ j, n ≤ j → j < k → suffixed name j ∈ seen) : suffixLoop seen name n = some (suffixed name k) := by
  -- on the distance to the free number
  induction hd : k - n generalizing n with
  | zero =>
    obtain rfl : n = k := by omega
    rw [suffixLoop, if_neg hfree]
  | succ d ih =>
    rw [suffixLoop, if_pos (htaken n le_rfl (by omega)), if_pos (by omega)]
    exact ih (by omega) (fun j hj => htaken j (by omega)) (by omega)

theorem find_lt_length (hname : name ∈ seen) (hex : ∃ k, suffixed name (k + 2) ∉ seen) : Nat.find hex < seen.length := by
  have hsub : insert name ((Finset.range (Nat.find hex)).image (fun k => suffixed name (k + 2))) ⊆ seen.toFinset := by
    intro x hx
    rw [mem_toFinset]
    rcases Finset.mem_insert.1 hx with rfl | hx
    · exact hname
    · obtain ⟨k, hk, rfl⟩ := Finset.mem_image.1 hx
      exact not_not.1 (Nat.find_min hex (Finset.mem_range.1 hk))
  have hnew : name ∉ (Finset.range (Nat.find hex)).image (fun k => suffixed name (k + 2)) := by
    intro h
    obtain ⟨k, -, hk⟩ := Finset.mem_image.1 h
    exact suffixed_ne name _ hk
  have hinj : Function.Injective (fun k => suffixed name (k + 2)) := fun a b h => by
    have := suffixed_injective name h
    omega
  calc Nat.find hex < (insert name ((Finset.range (Nat.find hex)).image (fun k => suffixed name (k + 2)))).card := by
        rw [Finset.card_insert_of_notMem hnew, Finset.card_image_of_injective _ hinj, Finset.card_range]
        exact Nat.lt_succ_self _
    _ ≤ seen.toFinset.card := Finset.card_le_card hsub
    _ ≤ seen.length := toFinset_card_le seen

theorem suffixLoop_dedupeCandidate (hname : name ∈ seen) (hroom : seen.length + 1 < 2 ^ 31) :
    suffixLoop seen name 2 = some (dedupeCandidate seen name) := by
  obtain ⟨hinj, hcand⟩ : ∃ hinj, dedupeCandidate seen name = firstFree (fun n => suffixed name (n + 2)) hinj seen :=
    ⟨_, rfl⟩
  rw [hcand]
  have hlt := find_lt_length hname (exists_free hinj seen)
  refine suffixLoop_eq (Nat.find_spec (exists_free hinj seen)) (by omega) (by omega) ?_
  intro j hj hjk
  obtain ⟨i, rfl⟩ := Nat.exists_eq_add_of_le' hj
  exact not_not.1 (Nat.find_min (exists_free hinj seen) (by omega))

variable {names : List String}

theorem dedupeLoop_eq (out : List String) (hroom : seen.length + names.length < 2 ^ 31) :
    dedupeLoop seen out names = some (out ++ dedupeFrom seen names) := by
  induction names generalizing seen out with
  | nil => rw [dedupeLoop, dedupeFrom, append_nil]
  | cons name names ih =>
    rw [length_cons] at hroom
    rw [dedupeLoop, dedupeFrom]
    by_cases hname : name ∈ seen
    · rw [if_pos hname, if_pos hname, suffixLoop_dedupeCandidate hname (by omega), Option.bind_some, ih]
      · simp
      · rw [length_cons]
        omega
    rw [if_neg hname, if_neg hname, ih]
    · simp
    · rw [length_cons]
      omega

/-! ## Which names are changed -/

def putOut (out : List String) (name : String) : String :=
  if name ∈ out then dedupeCandidate out.reverse name else name

theorem dedupeFrom_append (seen pre post : List String) :
    dedupeFrom seen (pre ++ post) = dedupeFrom seen pre ++ dedupeFrom ((dedupeFrom seen pre).reverse ++ seen) post := by
  induction pre generalizing seen with
  | nil => rfl
  | cons name pre ih =>
    rw [cons_append, dedupeFrom, dedupeFrom]
    split
    · simp [ih]
    · simp [ih]

theorem dedupeNames_concat (pre : List String) (name : String) :
    dedupeNames (pre ++ [name]) = dedupeNames pre ++ [putOut (dedupeNames pre) name] := by
  rw [dedupeNames, dedupeFrom_append, append_nil, putOut]
  change dedupeNames pre ++ dedupeFrom (dedupeNames pre).reverse [name] = _
  by_cases h : name ∈ dedupeNames pre
  · rw [if_pos h, dedupeFrom, if_pos (mem_reverse.2 h), dedupeFrom]
  · rw [if_neg h, dedupeFrom, if_neg (fun hr => h (mem_reverse.1 hr)), dedupeFrom]

theorem getElem?_dedupeNames {pre : List String} (h : pre ++ [name] <+: names) :
    (dedupeNames names)[pre.length]? = some (putOut (dedupeNames pre) name) := by
  obtain ⟨post, rfl⟩ := h
  have hlen : (dedupeNames pre).length = pre.length := length_dedupeNames pre
  have happ : dedupeNames (pre ++ [name] ++ post) = dedupeNames (pre ++ [name]) ++ dedupeFrom _ post :=
    dedupeFrom_append [] (pre ++ [name]) post
  rw [happ, dedupeNames_concat, append_assoc, List.getElem?_append_right (by omega), hlen, Nat.sub_self]
  rfl

theorem putOut_of_mem {out : List String} (h : name ∈ out) : ∃ k, 2 ≤ k ∧ putOut out name = suffixed name k := by
  rw [putOut, if_pos h]
  exact ⟨_, Nat.le_add_left 2 _, rfl⟩

theorem putOut_of_notMem {out : List String} (h : name ∉ out) : putOut out name = name :=
  if_neg h

theorem subset_dedupeNames (names : List String) : names ⊆ dedupeNames names := by
  induction names using List.reverseRecOn with
  | nil => exact nil_subset _
  | append_singleton names name ih =>
    rw [dedupeNames_concat]
    intro n hn
    rcases mem_append.1 hn with hn | hn
    · exact mem_append_left _ (ih hn)
    obtain rfl := mem_singleton.1 hn
    by_cases hout : n ∈ dedupeNames names
    · exact mem_append_left _ hout
    · rw [putOut_of_notMem hout]
      exact mem_append_right _ (mem_singleton_self n)

/-- No name, where it is first given, reads like a repeated earlier name with a number behind it. -/
def Unambiguous (names : List String) : Prop :=
  ∀ pre name, pre ++ [name] <+: names → name ∉ pre → ∀ m k, 2 ≤ pre.count m → 2 ≤ k → name ≠ suffixed m k

theorem Unambiguous.of_prefix {names' : List String} (h : Unambiguous names) (hpre : names' <+: names) : Unambiguous names' :=
  fun pre name hname => h pre name (hname.trans hpre)

theorem Unambiguous.put_out (h : Unambiguous names) :
    ∀ n ∈ dedupeNames names, n ∈ names ∨ ∃ m k, 2 ≤ names.count m ∧ 2 ≤ k ∧ n = suffixed m k := by
  induction names using List.reverseRecOn with
  | nil => exact fun n hn => absurd hn not_mem_nil
  | append_singleton names name ih =>
    have ih := ih (h.of_prefix (prefix_append names [name]))
    rw [dedupeNames_concat]
    intro n hn
    rcases mem_append.1 hn with hn | hn
    · rcases ih n hn with hin | ⟨m, k, hm, hk, rfl⟩
      · exact .inl (mem_append_left _ hin)
      · refine .inr ⟨m, k, ?_, hk, rfl⟩
        rw [count_append]
        omega
    obtain rfl := mem_singleton.1 hn
    by_cases hout : name ∈ dedupeNames names
    · obtain ⟨k, hk, hput⟩ := putOut_of_mem hout
      have hgiven : name ∈ names := by
        by_contra hnew
        rcases ih name hout with hin | ⟨m, j, hm, hj, heq⟩
        · exact hnew hin
        · exact h names name prefix_rfl hnew m j hm hj heq
      refine .inr ⟨name, k, ?_, hk, hput⟩
      rw [count_append, count_singleton_self]
      have := count_pos_iff.2 hgiven
      omega
    · rw [putOut_of_notMem hout]
      exact .inl (mem_append_right _ (mem_singleton_self name))

theorem Unambiguous.notMem_dedupeNames {pre : List String} (h : Unambiguous names)
    (hpre : pre ++ [name] <+: names) (hnew : name ∉ pre) : name ∉ dedupeNames pre := by
  intro hout
  rcases (h.of_prefix ((prefix_append pre [name]).trans hpre)).put_out name hout with hin | ⟨m, k, hm, hk, heq⟩
  · exact hnew hin
  · exact h pre name hpre hnew m k hm hk heq

end Ferrowl.Tui
